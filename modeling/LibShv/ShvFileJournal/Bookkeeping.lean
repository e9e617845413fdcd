import LibShv.ShvFileJournal.Files

/-!
# LibShv.ShvFileJournal.Bookkeeping

What the context says of the files, over all the appends of one object: which files there are,
how big they are together, and the time of the last line. `createNewLogFile` does not count the
snapshot that it writes, and lists a start again when the last file starts then; without that
the context is right.
-/

namespace LibShv.ShvFileJournal

open ShvJournalFileWriter ShvJournalFileReader

/-! ## what an append writes -/

/-- The time that the line of an entry gets. -/
def writtenTime (now : Int64) (entry : ShvJournalEntry) (j : ShvFileJournal) : Int64 :=
  timeOr now (entryTime now entry j.ready)

/-- The line of an entry. -/
def writtenLine (now : Int64) (entry : ShvJournalEntry) (j : ShvFileJournal) : Bytes :=
  line (j.writtenTime now entry) (j.writtenTime now entry)
    { entry with epochMsec := entryTime now entry j.ready }

/-- The snapshot of the file that an entry starts. -/
def startText (now : Int64) (entry : ShvJournalEntry) (j : ShvFileJournal) : Bytes :=
  if j.ready.needsNewFile then snapshotText (entryTime now entry j.ready) j.snapshot else []

/-- Are the oldest files deleted after the entry, and all the sizes added up again? -/
def rotates (now : Int64) (entry : ShvJournalEntry) (j : ShvFileJournal) : Bool :=
  j.journalSizeLimit < j.ready.context.journalSize + (j.writtenLine now entry).length

/-- A file can be started: it is later than the others, and its name is read as its start. -/
structure StartBooks (start : Int64) (j : ShvFileJournal) : Prop where
  positive : 0 < start
  newer : ∀ file ∈ j.context.files, file < start
  named : fileNameToFileMsec (fileMsecToFileName start) = .ok start

/-- An entry can be appended. -/
structure AppendBooks (now : Int64) (entry : ShvJournalEntry) (j : ShvFileJournal) : Prop where
  time : 0 ≤ j.writtenTime now entry
  adds : ∃ snapshot, addToSnapshot j.snapshot
    { entry with epochMsec := entryTime now entry j.ready } = .ok snapshot
  start : j.ready.needsNewFile = true → StartBooks (entryTime now entry j.ready) j.ready

/-- Nothing is written that is not counted. -/
def AppendCounts (now : Int64) (entry : ShvJournalEntry) (j : ShvFileJournal) : Prop :=
  j.startText now entry = [] ∨ j.rotates now entry = true

/-! ## the context -/

/-- The files are those of the directory, and all but `missing` bytes of them are counted. -/
structure Books (j : ShvFileJournal) (logs : List LogFile) (missing : Int) : Prop where
  dir : j.dir = directoryOf logs
  filed : Filed logs
  files : j.context.files = logs.map (·.1)
  size : j.context.journalSize + missing = totalSize logs
  consistent : 0 ≤ j.context.journalSize

/-- A journal on a directory; a new object has not read it yet. -/
structure Kept (j : ShvFileJournal) (logs : List LogFile) : Prop where
  dir : j.dir = directoryOf logs
  filed : Filed logs
  books : 0 ≤ j.context.journalSize → Books j logs 0
  recent : 0 ≤ j.context.recentTimeStamp

theorem Books.checkRecentTimeStamp {j : ShvFileJournal} {logs : List LogFile} {missing : Int}
    (h : Books j logs missing) : Books j.checkRecentTimeStamp logs missing := by
  rw [ShvFileJournal.checkRecentTimeStamp]
  split
  · exact h
  · exact ⟨h.dir, h.filed, h.files, h.size, h.consistent⟩

/-- The time of the last line is not forgotten. -/
theorem le_checkRecentTimeStamp (j : ShvFileJournal) :
    0 ≤ j.checkRecentTimeStamp.context.recentTimeStamp ∧
      j.context.recentTimeStamp ≤ j.checkRecentTimeStamp.context.recentTimeStamp := by
  rw [ShvFileJournal.checkRecentTimeStamp]
  by_cases hpositive : 0 < j.context.recentTimeStamp
  · rw [if_pos hpositive]
    exact ⟨Int64.le_of_lt hpositive, Int64.le_refl _⟩
  · rw [if_neg hpositive]
    have hle := Int64.not_lt.mp hpositive
    dsimp only
    split
    · exact ⟨Int64.le_refl _, hle⟩
    · exact ⟨le_max_right _ _, Int64.le_trans hle (le_max_right _ _)⟩

@[simp] theorem snapshot_checkRecentTimeStamp (j : ShvFileJournal) :
    j.checkRecentTimeStamp.snapshot = j.snapshot := by
  rw [ShvFileJournal.checkRecentTimeStamp]
  split <;> rfl

@[simp] theorem journalSizeLimit_checkRecentTimeStamp (j : ShvFileJournal) :
    j.checkRecentTimeStamp.journalSizeLimit = j.journalSizeLimit := by
  rw [ShvFileJournal.checkRecentTimeStamp]
  split <;> rfl

theorem Kept.checkJournalContext {j : ShvFileJournal} {logs : List LogFile} (h : Kept j logs) :
    ∃ j', j.checkJournalContext = .ok j' ∧ Books j' logs 0 ∧ j'.snapshot = j.snapshot ∧
      j'.journalSizeLimit = j.journalSizeLimit ∧ (0 ≤ j.context.journalSize → j' = j) := by
  rw [ShvFileJournal.checkJournalContext]
  by_cases hsize : 0 ≤ j.context.journalSize
  · rw [if_pos hsize]
    exact ⟨j, rfl, h.books hsize, rfl, rfl, fun _ => rfl⟩
  · rw [if_neg hsize]
    obtain ⟨lastFileSize, hj'⟩ := @updateJournalStatus_directoryOf
      { j with context := { j.context with recentTimeStamp := 0 } } logs h.dir h.filed
    exact ⟨_, hj', ⟨h.dir, h.filed, rfl, Int.add_zero _, totalSize_nonneg logs⟩, rfl, rfl,
      fun hsize' => absurd hsize' hsize⟩

/-- What an append starts from. -/
theorem Kept.ready {j : ShvFileJournal} {logs : List LogFile} (h : Kept j logs) :
    (∃ j', j.checkJournalContext = .ok j' ∧ j.ready = j'.checkRecentTimeStamp) ∧
      Books j.ready logs 0 ∧ j.ready.snapshot = j.snapshot ∧
      j.ready.journalSizeLimit = j.journalSizeLimit ∧
      0 ≤ j.ready.context.recentTimeStamp ∧
      (0 ≤ j.context.journalSize →
        j.context.recentTimeStamp ≤ j.ready.context.recentTimeStamp) := by
  obtain ⟨j', hcheck, hbooks, hsnapshot, hlimit, hsame⟩ := h.checkJournalContext
  have hj : j.ready = j'.checkRecentTimeStamp := by rw [ShvFileJournal.ready, hcheck]
  obtain ⟨hzero, hle⟩ := le_checkRecentTimeStamp j'
  refine ⟨⟨j', hcheck, hj⟩, ?_⟩
  rw [hj]
  refine ⟨hbooks.checkRecentTimeStamp, by simpa using hsnapshot, by simpa using hlimit, hzero,
    fun hsize => ?_⟩
  rwa [hsame hsize] at hle ⊢

/-! ## a new file, and old ones -/

/-- A file is started, and its snapshot is not counted. -/
theorem Books.createNewLogFile {j : ShvFileJournal} {logs : List LogFile} (h : Books j logs 0)
    (now : Int64) {start : Int64} (hstart : StartBooks start j) :
    ∃ j', j.createNewLogFile now start = .ok j' ∧
      Books j' (logs ++ [(start, snapshotText start j.snapshot)])
        (snapshotText start j.snapshot).length ∧
      j'.context.recentTimeStamp = start ∧ j'.snapshot = j.snapshot ∧
      j'.context.journalSize = j.context.journalSize ∧
      j'.journalSizeLimit = j.journalSizeLimit := by
  have hnewer : ∀ log ∈ logs, log.1 < start := fun log hlog =>
    hstart.newer log.1 (by rw [h.files]; exact List.mem_map_of_mem hlog)
  have hfiled : Filed (logs ++ [(start, snapshotText start j.snapshot)]) :=
    h.filed.concat hstart.named hnewer
  rw [createNewLogFile_of_pos now hstart.positive]
  refine ⟨_, rfl, ⟨?_, hfiled, ?_, ?_, h.consistent⟩, rfl, rfl, rfl, rfl⟩
  · dsimp only
    rw [h.dir]
    exact append_directoryOf_start hfiled
  · dsimp only
    rw [h.files, List.map_append]
    rfl
  · dsimp only
    rw [totalSize_append, ← h.size]
    simp [totalSize]

/-- The file of an entry is the last one. -/
theorem Books.logFile {j : ShvFileJournal} {logs : List LogFile} (h : Books j logs 0) (now : Int64)
    {msec : Int64} (hrecent : j.context.recentTimeStamp ≤ msec)
    (hstart : j.needsNewFile = true → StartBooks msec j) :
    ∃ j' logs' log, j.logFile now msec = .ok (j', log.1) ∧
      Books j' (logs' ++ [log])
        (if j.needsNewFile then (snapshotText msec j.snapshot).length else 0) ∧
      j'.context.recentTimeStamp ≤ msec ∧ j'.snapshot = j.snapshot ∧
      j'.context.journalSize = j.context.journalSize ∧
      j'.journalSizeLimit = j.journalSizeLimit := by
  by_cases hnew : j.needsNewFile = true
  · obtain ⟨j', hj', hbooks, hstamp, hsnapshot, hsize, hlimit⟩ :=
      h.createNewLogFile now (hstart hnew)
    rw [ShvFileJournal.logFile, if_pos hnew, hj', if_pos hnew]
    exact ⟨j', logs, (msec, snapshotText msec j.snapshot), rfl, hbooks, Int64.le_of_eq hstamp,
      hsnapshot, hsize, hlimit⟩
  · rw [if_neg hnew]
    obtain ⟨logs', log, rfl, hlog⟩ := logFile_of_not_needsNewFile h.files hnew now msec
    exact ⟨j, logs', log, hlog, h, hrecent, rfl, rfl, rfl⟩

/-- After a rotation everything is counted, and the newest file is still there. -/
theorem Books.rotateJournal {j : ShvFileJournal} {logs : List LogFile} {log : LogFile}
    {missing : Int} (h : Books j (logs ++ [log]) missing) :
    ∃ j' logs', j.rotateJournal = .ok j' ∧ Books j' (logs' ++ [log]) 0 ∧
      j'.snapshot = j.snapshot ∧ j'.context.recentTimeStamp = j.context.recentTimeStamp := by
  obtain ⟨size₁, hj₁⟩ := updateJournalStatus_directoryOf h.dir h.filed
  obtain ⟨k, hk, hkept⟩ := deleteOldest_directoryOf h.filed j.journalSizeLimit
    (totalSize (logs ++ [log]))
  have hlength := hkept (List.append_ne_nil_of_right_ne_nil _ (List.cons_ne_nil _ _))
  rw [List.length_append, List.length_singleton] at hlength
  have hdrop : (logs ++ [log]).drop k = logs.drop k ++ [log] :=
    List.drop_append_of_le_length (Nat.le_of_lt_succ hlength)
  rw [hdrop] at hk
  have hfiled : Filed (logs.drop k ++ [log]) := hdrop ▸ h.filed.drop k
  rw [← h.dir] at hk
  have hcount : ((logs ++ [log]).map (·.1)).length = (logs ++ [log]).length := List.length_map _
  rw [ShvFileJournal.rotateJournal, hj₁]
  simp only [bind, Except.bind, hcount, hk]
  obtain ⟨size₂, hj₂⟩ := @updateJournalStatus_directoryOf
    ⟨directoryOf (logs.drop k ++ [log]), j.snapshot,
      { j.context with
        files := (logs ++ [log]).map (·.1)
        journalSize := totalSize (logs ++ [log])
        lastFileSize := size₁ }, j.fileSizeLimit, j.journalSizeLimit⟩
    (logs.drop k ++ [log]) rfl hfiled
  rw [hj₂]
  exact ⟨_, logs.drop k, rfl, ⟨rfl, hfiled, rfl, Int.add_zero _, totalSize_nonneg _⟩, rfl, rfl⟩

/-! ## appending -/

/-- The line goes to the last file; a rotation counts what was missing. -/
theorem Books.writeEntry {j : ShvFileJournal} {logs : List LogFile} {log : LogFile} {missing : Int}
    (h : Books j (logs ++ [log]) missing) {now msec : Int64} {e : ShvJournalEntry}
    (hmsec : timeOr now e.epochMsec = msec) (hrecent : j.context.recentTimeStamp ≤ e.epochMsec)
    {snapshot : ShvSnapshot} (hadd : addToSnapshot j.snapshot e = .ok snapshot) :
    ∃ j' logs', j.writeEntry now log.1 e = .ok j' ∧
      Books j' (logs' ++ [(log.1, log.2 ++ line msec msec e)])
        (if j.journalSizeLimit < j.context.journalSize + (line msec msec e).length then 0
          else missing) ∧
      j'.context.recentTimeStamp = msec := by
  have hmax : (if 0 < j.context.recentTimeStamp then max msec j.context.recentTimeStamp
      else msec) = msec := by
    split
    · next hpositive =>
      have hne : e.epochMsec ≠ 0 := fun hzero =>
        absurd (Int64.lt_of_lt_of_le hpositive (hzero ▸ hrecent)) (Int64.lt_irrefl)
      rw [timeOr, if_neg hne] at hmsec
      exact max_eq_left_of_le (hmsec ▸ hrecent)
    · rfl
  have hfiled := h.filed.extend (log.2 ++ line msec msec e)
  have hlog : log ∈ logs ++ [log] := List.mem_append_right _ (List.mem_singleton_self log)
  have hbooks : ∀ lastFileSize : Int, Books
      ⟨j.dir.append (fileMsecToFileName log.1) (line msec msec e), snapshot,
        ⟨j.context.files, j.context.journalSize + (line msec msec e).length, lastFileSize, msec⟩,
        j.fileSizeLimit, j.journalSizeLimit⟩
      (logs ++ [(log.1, log.2 ++ line msec msec e)]) missing := by
    intro lastFileSize
    refine ⟨?_, hfiled, ?_, ?_, ?_⟩
    · dsimp only
      rw [h.dir, append_directoryOf_last _ h.filed]
    · dsimp only
      rw [h.files, List.map_append, List.map_append]
      rfl
    · have hsize := h.size
      rw [totalSize_append] at hsize ⊢
      simp only [totalSize, List.map_cons, List.map_nil, List.sum_cons, List.sum_nil,
        List.length_append, Int.natCast_add] at hsize ⊢
      omega
    · exact Int.add_nonneg h.consistent (Int.natCast_nonneg _)
  rw [ShvFileJournal.writeEntry, hadd]
  dsimp only
  rw [hmsec, hmax]
  by_cases hrotate : j.journalSizeLimit < j.context.journalSize + (line msec msec e).length
  · rw [if_pos hrotate, if_pos hrotate]
    obtain ⟨j', logs', hj', hbooks', -, hrecent'⟩ := (hbooks _).rotateJournal
    exact ⟨j', logs', hj', hbooks', hrecent'⟩
  · rw [if_neg hrotate, if_neg hrotate]
    exact ⟨_, logs, rfl, hbooks _, rfl⟩

/-- What an append leaves. -/
theorem Kept.append {j : ShvFileJournal} {logs : List LogFile} (h : Kept j logs) {now : Int64}
    {entry : ShvJournalEntry} (hok : AppendBooks now entry j) :
    ∃ (logs' : List LogFile) (start : Int64) (text : Bytes),
      Books (j.append now entry) (logs' ++ [(start, text ++ j.writtenLine now entry)])
        (if j.rotates now entry then 0 else (j.startText now entry).length) ∧
      (j.append now entry).context.recentTimeStamp = j.writtenTime now entry := by
  obtain ⟨⟨j₁, hj₁, hj⟩, hbooks, hsnapshot, hlimit, -, -⟩ := h.ready
  obtain ⟨snapshot, hadd⟩ := hok.adds
  obtain ⟨j₂, logs₂, log, hj₂, hbooks₂, hrecent, hsnapshot₂, hsize₂, hlimit₂⟩ :=
    @Books.logFile j.ready logs hbooks now (entryTime now entry j.ready) (le_max_right _ _)
      hok.start
  have hlast := not_lt_getLast hbooks₂.files
  have hadd₂ : addToSnapshot j₂.snapshot { entry with epochMsec := entryTime now entry j.ready } =
      .ok snapshot := by rw [hsnapshot₂, hsnapshot, hadd]
  obtain ⟨j₃, logs₃, hj₃, hbooks₃, hrecent₃⟩ := @Books.writeEntry j₂ logs₂ log _ hbooks₂ now
    (j.writtenTime now entry) { entry with epochMsec := entryTime now entry j.ready } rfl hrecent
    snapshot hadd₂
  have happend : j.append now entry = j₃ := by
    rw [hj, entryTime] at hj₂ hj₃
    rw [ShvFileJournal.append, appendThrow, hj₁]
    simp only [bind, Except.bind, hj₂, if_neg hlast, hj₃]
  rw [happend]
  refine ⟨logs₃, log.1, log.2, ?_, hrecent₃⟩
  have hrotates : j.rotates now entry = decide (j₂.journalSizeLimit < j₂.context.journalSize +
      (line (j.writtenTime now entry) (j.writtenTime now entry)
        { entry with epochMsec := entryTime now entry j.ready }).length) := by
    rw [hlimit₂, hlimit, hsize₂]
    rfl
  have hmissing : (if j.ready.needsNewFile then
      ((snapshotText (entryTime now entry j.ready) j.ready.snapshot).length : Int) else 0) =
      (j.startText now entry).length := by
    rw [startText, hsnapshot]
    split <;> rfl
  rw [hmissing] at hbooks₃
  rw [hrotates]
  simp only [decide_eq_true_eq]
  exact hbooks₃

/-- The context after an append, if all that was written is counted. -/
theorem Kept.of_append {j : ShvFileJournal} {logs : List LogFile} (h : Kept j logs) {now : Int64}
    {entry : ShvJournalEntry} (hok : AppendBooks now entry j) (hcounts : AppendCounts now entry j) :
    ∃ logs', Kept (j.append now entry) logs' ∧ 0 ≤ (j.append now entry).context.journalSize ∧
      (j.append now entry).context.recentTimeStamp = j.writtenTime now entry := by
  obtain ⟨logs', start, text, hbooks, hrecent⟩ := h.append hok
  have hmissing :
      (if j.rotates now entry then 0 else ((j.startText now entry).length : Int)) = 0 := by
    rcases hcounts with hnil | hrotates
    · rw [hnil]
      simp
    · rw [if_pos hrotates]
  rw [hmissing] at hbooks
  exact ⟨_, ⟨hbooks.dir, hbooks.filed, fun _ => hbooks, hrecent ▸ hok.time⟩, hbooks.consistent,
    hrecent⟩

/-! ## runs of one object -/

/-- Entries, each with the time of the clock when it is appended. -/
abbrev Appends := List (Int64 × ShvJournalEntry)

def appends (j : ShvFileJournal) (as : Appends) : ShvFileJournal :=
  as.foldl (fun j a => j.append a.1 a.2) j

/-- The times of the lines. -/
def writtenTimes (j : ShvFileJournal) : Appends → List Int64
  | [] => []
  | (now, entry) :: as => j.writtenTime now entry :: (j.append now entry).writtenTimes as

/-- What is asked of the appends, each in the state that it is made in. -/
def AppendsBook (j : ShvFileJournal) : Appends → Prop
  | [] => True
  | (now, entry) :: as =>
    AppendBooks now entry j ∧ AppendCounts now entry j ∧ (j.append now entry).AppendsBook as

theorem appends_cons (j : ShvFileJournal) (now : Int64) (entry : ShvJournalEntry) (as : Appends) :
    j.appends ((now, entry) :: as) = (j.append now entry).appends as := rfl

theorem kept_create {logs : List LogFile} (h : Filed logs) (fileSizeLimit journalSizeLimit : Int) :
    Kept (create (directoryOf logs) fileSizeLimit journalSizeLimit) logs :=
  ⟨rfl, h, fun hsize => absurd hsize (by simp [create]), Int64.le_refl 0⟩

/-- No line is older than what the journal was ready for. -/
theorem Kept.recent_le_writtenTime {j : ShvFileJournal} {logs : List LogFile} (h : Kept j logs)
    (hsize : 0 ≤ j.context.journalSize ∨ j.context.recentTimeStamp = 0) {now : Int64}
    {entry : ShvJournalEntry} (hok : AppendBooks now entry j) :
    j.context.recentTimeStamp ≤ j.writtenTime now entry := by
  obtain ⟨-, -, -, -, hzero, hle⟩ := h.ready
  have hrecent : j.context.recentTimeStamp ≤ j.ready.context.recentTimeStamp := by
    rcases hsize with hsize | hfresh
    · exact hle hsize
    · rwa [hfresh]
  have hentry : j.ready.context.recentTimeStamp ≤ entryTime now entry j.ready := le_max_right _ _
  by_cases hnow : entryTime now entry j.ready = 0
  · rw [hnow] at hentry
    exact Int64.le_trans hrecent (Int64.le_trans hentry hok.time)
  · rw [writtenTime, timeOr, if_neg hnow]
    exact Int64.le_trans hrecent hentry

/-- After a run: the files are counted, and the last line has the time of the context. -/
theorem Kept.appends {j : ShvFileJournal} {logs : List LogFile} (h : Kept j logs)
    (hsize : 0 ≤ j.context.journalSize ∨ j.context.recentTimeStamp = 0) {as : Appends}
    (hok : AppendsBook j as) :
    ∃ logs', Kept (j.appends as) logs' ∧
      (0 ≤ (j.appends as).context.journalSize ∨ (j.appends as).context.recentTimeStamp = 0) ∧
      (as ≠ [] → 0 ≤ (j.appends as).context.journalSize) ∧
      (writtenTimes j as).Pairwise (· ≤ ·) ∧
      ∀ t ∈ writtenTimes j as,
        j.context.recentTimeStamp ≤ t ∧ t ≤ (j.appends as).context.recentTimeStamp := by
  induction as generalizing j logs with
  | nil =>
    exact ⟨logs, h, hsize, fun hne => absurd rfl hne, List.Pairwise.nil,
      fun _ ht => absurd ht List.not_mem_nil⟩
  | cons a as ih =>
    obtain ⟨now, entry⟩ := a
    obtain ⟨hbooks, hcounts, hrest⟩ := hok
    obtain ⟨logs₁, hkept, hcounted, htime⟩ := h.of_append hbooks hcounts
    have hfirst := h.recent_le_writtenTime hsize hbooks
    obtain ⟨logs', hkept', hsize', hcounted', hsorted, htimes⟩ := ih hkept (.inl hcounted) hrest
    have hlast : (j.append now entry).context.recentTimeStamp ≤
        ((j.append now entry).appends as).context.recentTimeStamp := by
      cases as with
      | nil => exact Int64.le_refl _
      | cons b as =>
        have hb := htimes ((j.append now entry).writtenTime b.1 b.2) List.mem_cons_self
        exact Int64.le_trans hb.1 hb.2
    rw [appends_cons]
    refine ⟨logs', hkept', hsize', fun _ => ?_, ?_, fun t ht => ?_⟩
    · cases as with
      | nil => exact hcounted
      | cons b as => exact hcounted' (List.cons_ne_nil _ _)
    · exact List.pairwise_cons.mpr ⟨fun t ht => htime ▸ (htimes t ht).1, hsorted⟩
    · rcases List.mem_cons.mp ht with rfl | ht
      · exact ⟨hfirst, htime ▸ hlast⟩
      · exact ⟨Int64.le_trans (htime ▸ hfirst) (htimes t ht).1, (htimes t ht).2⟩

/-- The size of the journal is that of the listed files. -/
def SizeCounted (j : ShvFileJournal) : Prop :=
  j.context.journalSize =
    (j.context.files.map fun msec => j.dir.fileSize (fileMsecToFileName msec)).sum

theorem Books.sizeCounted_iff {j : ShvFileJournal} {logs : List LogFile} {missing : Int}
    (h : Books j logs missing) : j.SizeCounted ↔ missing = 0 := by
  rw [SizeCounted, h.files, h.dir, sum_fileSize_directoryOf h.filed, ← h.size]
  omega

theorem Books.sorted {j : ShvFileJournal} {logs : List LogFile} {missing : Int}
    (h : Books j logs missing) : j.context.files.Pairwise (· < ·) := by
  rw [h.files]
  exact List.pairwise_map.mpr h.filed.sorted

/-- Over the appends of one object, from any directory: the size is that of the listed files,
their starts increase, and every entry goes to the end of the newest file with a time that is not
smaller than those before. One more append counts the sizes right iff it writes no snapshot or
is followed by a rotation. -/
theorem context_of_appends {logs : List LogFile} (h : Filed logs)
    (fileSizeLimit journalSizeLimit : Int) {as : Appends}
    (hok : AppendsBook (create (directoryOf logs) fileSizeLimit journalSizeLimit) as) :
    let j₀ := create (directoryOf logs) fileSizeLimit journalSizeLimit
    let j := j₀.appends as
    (as ≠ [] → j.SizeCounted ∧ j.context.files.Pairwise (· < ·)) ∧
    (j₀.writtenTimes as).Pairwise (· ≤ ·) ∧
    ∀ now entry, AppendBooks now entry j →
      let j' := j.append now entry
      j'.context.files.Pairwise (· < ·) ∧
      (∃ start text, j'.context.files.getLast? = some start ∧
        j'.dir.find? (fileMsecToFileName start) = some (text ++ j.writtenLine now entry)) ∧
      (∀ t ∈ j₀.writtenTimes as, t ≤ j.writtenTime now entry) ∧
      (j'.SizeCounted ↔ AppendCounts now entry j) := by
  intro j₀ j
  obtain ⟨logs', hkept, hsize, hcounted, hsorted, htimes⟩ :=
    (kept_create h fileSizeLimit journalSizeLimit).appends (.inr rfl) hok
  refine ⟨fun hne => ?_, hsorted, fun now entry hbooks => ?_⟩
  · have hbooks := hkept.books (hcounted hne)
    exact ⟨hbooks.sizeCounted_iff.mpr rfl, hbooks.sorted⟩
  · obtain ⟨logs₁, start, text, hbooks₁, -⟩ := hkept.append hbooks
    refine ⟨hbooks₁.sorted, ⟨start, text, ?_, ?_⟩, fun t ht => ?_, ?_⟩
    · rw [hbooks₁.files, List.map_append, List.map_singleton, List.getLast?_concat]
    · rw [hbooks₁.dir]
      exact find?_directoryOf_last hbooks₁.filed
    · exact Int64.le_trans (htimes t ht).2 (hkept.recent_le_writtenTime hsize hbooks)
    · rw [hbooks₁.sizeCounted_iff, AppendCounts, ← List.length_eq_zero_iff]
      by_cases hrotates : j.rotates now entry = true
      · rw [if_pos hrotates]
        exact iff_of_true rfl (.inr hrotates)
      · rw [if_neg hrotates, or_iff_left hrotates]
        exact Int.natCast_eq_zero

/-- The value 1 under a path, some seconds after the start of 2018. -/
def valueSince2018 (path : String) (seconds : Int64) : ShvJournalEntry :=
  ⟨1514764800000 + seconds * 1000, ascii path, .ofVariant (.int 1), ShvJournalEntry.NO_SHORT_TIME,
    ShvJournalEntry.DOMAIN_VAL_CHANGE, 0, []⟩

/-- The first entry of a directory. -/
theorem context_of_appends_first :
    let j := (create [] 0 1000).appends [(1, valueSince2018 "a" 0)]
    j.SizeCounted ∧ j.context.files.Pairwise (· < ·) := by
  have htime : entryTime 1 (valueSince2018 "a" 0) (create [] 0 1000).ready = 1514764800000 := by
    decide
  have hstart : StartBooks (entryTime 1 (valueSince2018 "a" 0) (create [] 0 1000).ready)
      (create [] 0 1000).ready := by
    have hfiles : (create [] 0 1000).ready.context.files = [] := rfl
    rw [htime]
    exact ⟨by decide, by simp [hfiles], named_of_toOption (by decide)⟩
  have hadds : ∃ snapshot, addToSnapshot (create [] 0 1000).snapshot
      { valueSince2018 "a" 0 with
        epochMsec := entryTime 1 (valueSince2018 "a" 0) (create [] 0 1000).ready } =
      .ok snapshot := by
    rw [htime]
    exact ⟨_, rfl⟩
  have hcounts : AppendCounts 1 (valueSince2018 "a" 0) (create [] 0 1000) := by
    refine .inl ?_
    rw [startText, htime]
    rfl
  have htimeLe : 0 ≤ (create [] 0 1000).writtenTime 1 (valueSince2018 "a" 0) := by
    rw [writtenTime, htime]
    decide
  exact (@context_of_appends [] filed_nil 0 1000 [(1, valueSince2018 "a" 0)]
    ⟨⟨htimeLe, hadds, fun _ => hstart⟩, hcounts, trivial⟩).1 (List.cons_ne_nil _ _)

/-- The snapshot of the second file is not counted; two entries of one time start the same file
twice. -/
theorem not_context_of_appends :
    ¬((create [] 0 1000).appends
        [(1, valueSince2018 "a" 0), (1, valueSince2018 "a" 1)]).SizeCounted ∧
      ¬((create [] 0 1000).appends
        [(1, valueSince2018 "a" 0), (1, valueSince2018 "a" 0)]).context.files.Pairwise (· < ·) := by
  rw [SizeCounted]
  decide

end LibShv.ShvFileJournal
