import LibShv.GetLog.Checkpoint
import LibShv.ShvFileJournal.Files

/-!
# LibShv.ShvFileJournal.Checkpoints

When every file of a journal but the first starts with a checkpoint, a snapshot of all
the values in the files before it, and that this is kept by appending and rotating. Then
`getLog` need not read the files in front of the newest that matches.

A new object does not know the values of the files. If it starts a new file before all
of them were appended again, the snapshot of that file is not complete.
-/

namespace LibShv.ShvFileJournal

open ShvJournalFileWriter ShvJournalFileReader GetLog

/-! ## the files of a journal -/

/-- The entries of a text, if it can be read. -/
def textEntries (text : Bytes) : List ShvJournalEntry :=
  match readFile text with
  | .ok es => es
  | .error _ => []

/-- The entries of files. -/
def entriesOf (logs : List LogFile) : List ShvJournalEntry :=
  logs.flatMap fun log => textEntries log.2

/-- The entries in the directory of a journal. -/
def entries (j : ShvFileJournal) : List ShvJournalEntry :=
  j.dir.flatMap fun file => textEntries file.2

theorem textEntries_of_readFile {text : Bytes} {es : List ShvJournalEntry}
    (h : readFile text = .ok es) : textEntries text = es := by
  rw [textEntries, h]

theorem entries_eq {j : ShvFileJournal} {logs : List LogFile} (h : j.dir = directoryOf logs) :
    j.entries = entriesOf logs := by
  rw [entries, h, directoryOf, List.flatMap_map, entriesOf]

theorem entriesOf_append (logs logs' : List LogFile) :
    entriesOf (logs ++ logs') = entriesOf logs ++ entriesOf logs' := List.flatMap_append

/-- Each file is a journal of its own: it can be read, and its name is its start. -/
structure LogFile.Valid (log : LogFile) : Prop where
  named : fileNameToFileMsec (fileMsecToFileName log.1) = .ok log.1
  ended : Ended log.2
  reads : readFile log.2 = .ok (textEntries log.2)
  clear : ∀ e ∈ textEntries log.2, e.Clear

/-- The files of a directory: every one but the first starts with a checkpoint. -/
structure Chained (logs : List LogFile) : Prop where
  sorted : logs.Pairwise fun log log' => log.1 < log'.1
  valid : ∀ log ∈ logs, LogFile.Valid log
  checkpoints : ∀ older log newer, logs = older ++ log :: newer → older ≠ [] →
    ∃ snapshot rest, textEntries log.2 = snapshot ++ rest ∧
      Checkpoint (entriesOf older) log.1 snapshot

/-- A journal on such files. -/
structure Inv (j : ShvFileJournal) (logs : List LogFile) : Prop where
  dir : j.dir = directoryOf logs
  chained : Chained logs
  context : 0 ≤ j.context.journalSize → j.context.files = logs.map (·.1)

/-! ## files of a directory -/

theorem Chained.filed {logs : List LogFile} (h : Chained logs) : Filed logs :=
  ⟨h.sorted, fun log hlog => (h.valid log hlog).named⟩

theorem Chained.tail {log : LogFile} {logs : List LogFile} (h : Chained (log :: logs)) :
    Chained logs where
  sorted := (List.pairwise_cons.mp h.sorted).2
  valid x hx := h.valid x (List.mem_cons_of_mem _ hx)
  checkpoints := by
    intro older x newer hlogs _
    obtain ⟨snapshot, rest, htext, hcheck⟩ :=
      h.checkpoints (log :: older) x newer (by rw [hlogs]; rfl) (List.cons_ne_nil _ _)
    exact ⟨snapshot, rest, htext, hcheck.of_append⟩

theorem Chained.drop {logs : List LogFile} (h : Chained logs) (k : Nat) :
    Chained (logs.drop k) := by
  induction k generalizing logs with
  | zero => exact h
  | succ k ih =>
    cases logs with
    | nil => exact h
    | cons log logs => exact ih h.tail

/-! ## the context -/

/-- A consistent context of the files. -/
structure Ready (j : ShvFileJournal) (logs : List LogFile) : Prop where
  dir : j.dir = directoryOf logs
  chained : Chained logs
  files : j.context.files = logs.map (·.1)
  consistent : 0 ≤ j.context.journalSize

theorem Ready.inv {j : ShvFileJournal} {logs : List LogFile} (h : Ready j logs) : Inv j logs where
  dir := h.dir
  chained := h.chained
  context _ := h.files

/-- The names of the files are read, and nothing else changes. -/
theorem updateJournalStatus_ready {j : ShvFileJournal} {logs : List LogFile}
    (hdir : j.dir = directoryOf logs) (hchained : Chained logs) :
    ∃ j', j.updateJournalStatus = .ok j' ∧ Ready j' logs ∧ j'.snapshot = j.snapshot := by
  obtain ⟨lastFileSize, hj'⟩ := updateJournalStatus_directoryOf hdir hchained.filed
  exact ⟨_, hj', ⟨hdir, hchained, rfl, totalSize_nonneg logs⟩, rfl⟩

theorem Inv.checkJournalContext {j : ShvFileJournal} {logs : List LogFile} (h : Inv j logs) :
    ∃ j', j.checkJournalContext = .ok j' ∧ Ready j' logs ∧ j'.snapshot = j.snapshot := by
  rw [ShvFileJournal.checkJournalContext]
  by_cases hsize : 0 ≤ j.context.journalSize
  · rw [if_pos hsize]
    exact ⟨j, rfl, ⟨h.dir, h.chained, h.context hsize, hsize⟩, rfl⟩
  · rw [if_neg hsize]
    exact @updateJournalStatus_ready { j with context := { j.context with recentTimeStamp := 0 } }
      logs h.dir h.chained

theorem Ready.checkRecentTimeStamp {j : ShvFileJournal} {logs : List LogFile} (h : Ready j logs) :
    Ready j.checkRecentTimeStamp logs ∧ j.checkRecentTimeStamp.snapshot = j.snapshot := by
  rw [ShvFileJournal.checkRecentTimeStamp]
  split
  · exact ⟨h, rfl⟩
  · exact ⟨⟨h.dir, h.chained, h.files, h.consistent⟩, rfl⟩

/-! ## rotating -/

theorem Ready.rotateJournal {j : ShvFileJournal} {logs : List LogFile} (h : Ready j logs) :
    ∃ j' k, j.rotateJournal = .ok j' ∧ Ready j' (logs.drop k) ∧ j'.snapshot = j.snapshot := by
  obtain ⟨j₁, hj₁, hready, hsnapshot₁⟩ := updateJournalStatus_ready h.dir h.chained
  obtain ⟨k, hk, -⟩ := deleteOldest_directoryOf hready.chained.filed j₁.journalSizeLimit
    j₁.context.journalSize
  have hlength : logs.length = j₁.context.files.length := by rw [hready.files, List.length_map]
  rw [← hready.files, ← hready.dir, hlength] at hk
  obtain ⟨j₂, hj₂, hready₂, hsnapshot₂⟩ := @updateJournalStatus_ready
    { j₁ with dir := deleteOldest j₁.journalSizeLimit j₁.context.files j₁.context.files.length
                j₁.context.journalSize j₁.dir } _ hk (hready.chained.drop k)
  refine ⟨j₂, k, ?_, hready₂, hsnapshot₂.trans hsnapshot₁⟩
  rw [ShvFileJournal.rotateJournal, hj₁]
  exact hj₂

/-! ## a file behind the others -/

theorem Chained.init {logs : List LogFile} {log : LogFile} (h : Chained (logs ++ [log])) :
    Chained logs where
  sorted := (List.pairwise_append.mp h.sorted).1
  valid x hx := h.valid x (List.mem_append_left _ hx)
  checkpoints older x newer hlogs hne := h.checkpoints older x (newer ++ [log]) (by simp [hlogs]) hne

theorem Chained.lt_last {logs : List LogFile} {log : LogFile} (h : Chained (logs ++ [log])) :
    ∀ log' ∈ logs, log'.1 < log.1 := fun log' hlog' =>
  (List.pairwise_append.mp h.sorted).2.2 log' hlog' log (List.mem_singleton.mpr rfl)

theorem Chained.concat {logs : List LogFile} {log : LogFile} (h : Chained logs)
    (hvalid : log.Valid) (hnewer : ∀ log' ∈ logs, log'.1 < log.1)
    (hcheck : logs ≠ [] → ∃ snapshot rest, textEntries log.2 = snapshot ++ rest ∧
      Checkpoint (entriesOf logs) log.1 snapshot) : Chained (logs ++ [log]) where
  sorted := (h.filed.concat hvalid.named hnewer).sorted
  valid x hx := by
    rcases List.mem_append.mp hx with hx | hx
    · exact h.valid x hx
    · rwa [List.mem_singleton.mp hx]
  checkpoints := by
    intro older x newer hlogs hne
    rcases List.eq_nil_or_concat newer with rfl | ⟨newer, y, rfl⟩
    · obtain ⟨rfl, hx⟩ := List.append_inj' hlogs rfl
      obtain rfl := (List.cons.inj hx).1
      exact hcheck hne
    · rw [List.concat_eq_append, ← List.cons_append, ← List.append_assoc] at hlogs
      obtain ⟨rfl, -⟩ := List.append_inj' hlogs rfl
      exact h.checkpoints older x newer rfl hne

/-- Whole lines at the end of the last file leave it with its checkpoint. -/
theorem Chained.extend {logs : List LogFile} {log : LogFile} (h : Chained (logs ++ [log]))
    {text : Bytes} {es : List ShvJournalEntry} (hended : Ended text)
    (hreads : readFile text = .ok es) (hclear : ∀ e ∈ es, e.Clear) :
    Chained (logs ++ [(log.1, log.2 ++ text)]) := by
  have hlog := h.valid log (by simp)
  have hread := readFile_append hlog.ended hlog.reads hreads
  have htext := textEntries_of_readFile hread
  refine h.init.concat ⟨hlog.named, hlog.ended.append hended, ?_, ?_⟩ h.lt_last fun hne => ?_
  · rw [hread, htext]
  · intro e he
    rw [htext] at he
    exact (List.mem_append.mp he).elim (hlog.clear e) (hclear e)
  · obtain ⟨snapshot, rest, heq, hcheck⟩ := h.checkpoints logs log [] rfl hne
    exact ⟨snapshot, rest ++ es, by rw [htext, heq, List.append_assoc], hcheck⟩

/-! ## appending -/

/-- A file can be started: its name is that of no other file and can be read, nothing in the
directory is newer, and every path that has a value there is in the snapshot in memory. -/
structure NewFileOk (start : Int64) (j : ShvFileJournal) : Prop where
  newer : ∀ file ∈ j.context.files, file < start
  named : fileNameToFileMsec (fileMsecToFileName start) = .ok start
  notNewer : ∀ e ∈ j.entries, e.epochMsec ≤ start
  snapshot : ∃ snapshot, readFile (snapshotText start j.snapshot) = .ok snapshot ∧
    (∀ s ∈ snapshot, s.epochMsec = start ∧ s.IsValueChange) ∧
    ∀ path e, IsLastValue j.entries path e → ∃ s ∈ snapshot, s.path = path

/-- An entry can be appended: its line can be read, and so can the file that is started
for it. -/
structure AppendOk (now : Int64) (entry : ShvJournalEntry) (j : ShvFileJournal) : Prop where
  positive : 0 < entryTime now entry j.ready
  line : ∃ es, readFile (line (entryTime now entry j.ready) (entryTime now entry j.ready)
    { entry with epochMsec := entryTime now entry j.ready }) = .ok es ∧ ∀ e ∈ es, e.Clear
  newFile : j.ready.needsNewFile = true → NewFileOk (entryTime now entry j.ready) j.ready

theorem Ready.createNewLogFile {j : ShvFileJournal} {logs : List LogFile} (h : Ready j logs)
    (now : Int64) {start : Int64} (hpositive : 0 < start) (hok : NewFileOk start j) :
    ∃ j', j.createNewLogFile now start = .ok j' ∧
      Ready j' (logs ++ [(start, snapshotText start j.snapshot)]) ∧
      j'.context.recentTimeStamp = start ∧ j'.snapshot = j.snapshot := by
  obtain ⟨snapshot, hreads, hvalues, hcomplete⟩ := hok.snapshot
  have htext := textEntries_of_readFile hreads
  have hentries := entries_eq h.dir
  have hnewer : ∀ log ∈ logs, log.1 < start := fun log hlog =>
    hok.newer log.1 (by rw [h.files]; exact List.mem_map_of_mem hlog)
  have hvalid : LogFile.Valid (start, snapshotText start j.snapshot) :=
    ⟨hok.named, ended_snapshotText _ _, by rw [htext]; exact hreads,
      fun e he => (hvalues e (htext ▸ he)).2.clear⟩
  have hchained : Chained (logs ++ [(start, snapshotText start j.snapshot)]) := by
    refine h.chained.concat hvalid hnewer fun _ => ⟨snapshot, [], by simp [htext], ?_⟩
    rw [hentries] at hcomplete
    refine ⟨fun e he => hok.notNewer e (hentries ▸ he), fun e he => ?_,
      fun s hs => (hvalues s hs).1, fun s hs => (hvalues s hs).2, hcomplete⟩
    obtain ⟨log, hlog, he⟩ := List.mem_flatMap.mp he
    exact (h.chained.valid log hlog).clear e he
  rw [createNewLogFile_of_pos now hpositive]
  refine ⟨_, rfl, ⟨?_, hchained, ?_, h.consistent⟩, rfl, rfl⟩
  · dsimp only
    rw [h.dir]
    exact append_directoryOf_start hchained.filed
  · dsimp only
    rw [h.files, List.map_append]
    rfl

/-- What is in the directory in front of an entry: a new file may have been started. -/
def StartedFrom (msec : Int64) (j j' : ShvFileJournal) : Prop :=
  j'.snapshot = j.snapshot ∧ (j'.entries = j.entries ∨ j.needsNewFile = true ∧
    j'.entries = j.entries ++ textEntries (snapshotText msec j.snapshot))

/-- The file of an entry is the last one. -/
theorem Ready.logFile {j : ShvFileJournal} {logs : List LogFile} (h : Ready j logs) (now : Int64)
    {msec : Int64} (hpositive : 0 < msec) (hrecent : j.context.recentTimeStamp ≤ msec)
    (hok : j.needsNewFile = true → NewFileOk msec j) :
    ∃ j' logs' log, j.logFile now msec = .ok (j', log.1) ∧ Ready j' (logs' ++ [log]) ∧
      j'.context.recentTimeStamp ≤ msec ∧ StartedFrom msec j j' := by
  by_cases hnew : j.needsNewFile = true
  · obtain ⟨j', hj', hready, hstamp, hsnapshot⟩ := h.createNewLogFile now hpositive (hok hnew)
    have hentries : j'.entries = j.entries ++ textEntries (snapshotText msec j.snapshot) := by
      rw [entries_eq hready.dir, entries_eq h.dir, entriesOf_append]
      simp [entriesOf]
    rw [ShvFileJournal.logFile, if_pos hnew, hj']
    exact ⟨j', logs, (msec, snapshotText msec j.snapshot), rfl, hready,
      Int64.le_of_eq hstamp, hsnapshot, .inr ⟨hnew, hentries⟩⟩
  · obtain ⟨logs', log, rfl, hlog⟩ := logFile_of_not_needsNewFile h.files hnew now msec
    exact ⟨j, logs', log, hlog, h, hrecent, rfl, .inl rfl⟩

/-- The journal after `p`, whether or not it threw an exception. -/
def leftBy (p : Except Thrown ShvFileJournal) : ShvFileJournal :=
  match p with
  | .ok j => j
  | .error (_, j) => j

/-- What is left when an entry was added that is read back as `es`: nothing has changed, or the
entry is in the snapshot and behind the entries of the directory, of which the oldest may
have been deleted. -/
def Left (e : ShvJournalEntry) (es : List ShvJournalEntry) (j j' : ShvFileJournal) : Prop :=
  j'.snapshot = j.snapshot ∧ j'.entries = j.entries ∨
    addToSnapshot j.snapshot e = .ok j'.snapshot ∧
      ∃ deleted, deleted ++ j'.entries = j.entries ++ es

theorem Ready.writeEntry {j : ShvFileJournal} {logs : List LogFile} {log : LogFile}
    (h : Ready j (logs ++ [log])) (now : Int64) {e : ShvJournalEntry} (hpositive : 0 < e.epochMsec)
    (hrecent : j.context.recentTimeStamp ≤ e.epochMsec) {es : List ShvJournalEntry}
    (hline : readFile (line e.epochMsec e.epochMsec e) = .ok es) (hclear : ∀ x ∈ es, x.Clear) :
    ∃ logs', Inv (leftBy (j.writeEntry now log.1 e)) logs' ∧
      Left e es j (leftBy (j.writeEntry now log.1 e)) := by
  have hne : e.epochMsec ≠ 0 := fun heq => Int64.lt_irrefl (heq ▸ hpositive)
  have hmsec : (if 0 < j.context.recentTimeStamp then
      max e.epochMsec j.context.recentTimeStamp else e.epochMsec) = e.epochMsec := by
    rw [max_eq_left_of_le hrecent, ite_self]
  have hchained := h.chained.extend (ended_line _ _ _) hline hclear
  rw [ShvFileJournal.writeEntry]
  cases hadd : addToSnapshot j.snapshot e with
  | error msg => exact ⟨_, h.inv, .inl ⟨rfl, rfl⟩⟩
  | ok snapshot =>
    simp only [timeOr, if_neg hne, hmsec]
    have hready : ∀ context : JournalContext, context.files = j.context.files →
        0 ≤ context.journalSize → Ready { j with
          dir := j.dir.append (fileMsecToFileName log.1) (line e.epochMsec e.epochMsec e)
          snapshot
          context } (logs ++ [(log.1, log.2 ++ line e.epochMsec e.epochMsec e)]) := by
      intro context hfiles hsize
      refine ⟨?_, hchained, ?_, hsize⟩
      · dsimp only
        rw [h.dir, append_directoryOf_last _ h.chained.filed]
      · rw [hfiles, h.files]
        simp
    have hsize := Int.add_nonneg h.consistent
      (Int.natCast_nonneg (line e.epochMsec e.epochMsec e).length)
    have hready := hready ⟨j.context.files,
      j.context.journalSize + (line e.epochMsec e.epochMsec e).length,
      ((j.dir.find? (fileMsecToFileName log.1)).getD []).length +
        (line e.epochMsec e.epochMsec e).length, e.epochMsec⟩ rfl hsize
    have hentries : entriesOf (logs ++ [(log.1, log.2 ++ line e.epochMsec e.epochMsec e)]) =
        j.entries ++ es := by
      have htext := textEntries_of_readFile (readFile_append
        (h.chained.valid log (by simp)).ended (h.chained.valid log (by simp)).reads hline)
      rw [entries_eq h.dir, entriesOf_append, entriesOf_append, List.append_assoc]
      simp [entriesOf, htext]
    split
    · obtain ⟨j', k, hj', hready', hsnapshot⟩ := hready.rotateJournal
      rw [hj']
      refine ⟨_, hready'.inv, .inr ⟨hadd.trans (congrArg _ hsnapshot.symm), entriesOf
        ((logs ++ [(log.1, log.2 ++ line e.epochMsec e.epochMsec e)]).take k), ?_⟩⟩
      rw [leftBy, entries_eq hready'.dir, ← entriesOf_append, List.take_append_drop, hentries]
    · exact ⟨_, hready.inv, .inr ⟨hadd, [], (entries_eq hready.dir).trans hentries⟩⟩

/-- The checked context is consistent. -/
theorem Inv.ready {j : ShvFileJournal} {logs : List LogFile} (h : Inv j logs) :
    ∃ j', j.checkJournalContext = .ok j' ∧ j.ready = j'.checkRecentTimeStamp ∧
      Ready j.ready logs ∧ j.ready.snapshot = j.snapshot := by
  obtain ⟨j', hj', hready, hsnapshot⟩ := h.checkJournalContext
  have hj : j.ready = j'.checkRecentTimeStamp := by rw [ShvFileJournal.ready, hj']
  obtain ⟨hready', hsnapshot'⟩ := hready.checkRecentTimeStamp
  rw [hj]
  exact ⟨j', hj', rfl, hready', hsnapshot'.trans hsnapshot⟩

/-- Appending keeps the checkpoints. -/
theorem Inv.append {j : ShvFileJournal} {logs : List LogFile} (h : Inv j logs) {now : Int64}
    {entry : ShvJournalEntry} (hpositive : 0 < entryTime now entry j.ready)
    {es : List ShvJournalEntry}
    (hline : readFile (line (entryTime now entry j.ready) (entryTime now entry j.ready)
      { entry with epochMsec := entryTime now entry j.ready }) = .ok es)
    (hclear : ∀ e ∈ es, e.Clear)
    (hnew : j.ready.needsNewFile = true → NewFileOk (entryTime now entry j.ready) j.ready) :
    ∃ logs' j₁, Inv (j.append now entry) logs' ∧
      StartedFrom (entryTime now entry j.ready) j.ready j₁ ∧
      Left { entry with epochMsec := entryTime now entry j.ready } es j₁ (j.append now entry) := by
  obtain ⟨j₁, hj₁, hj, hready, -⟩ := h.ready
  obtain ⟨j₂, logs₂, log, hj₂, hready₂, hrecent, hstarted⟩ :=
    hready.logFile now hpositive (le_max_right _ _) hnew
  have hlast := not_lt_getLast hready₂.files
  have happend : j.append now entry = leftBy (j₂.writeEntry now log.1
      { entry with epochMsec := entryTime now entry j.ready }) := by
    rw [hj, entryTime] at hj₂ ⊢
    rw [ShvFileJournal.append, appendThrow, hj₁]
    simp only [bind, Except.bind, hj₂, if_neg hlast]
    rfl
  have hwritten := @Ready.writeEntry j₂ logs₂ log hready₂ now
    { entry with epochMsec := entryTime now entry j.ready } hpositive hrecent es hline hclear
  rw [← happend] at hwritten
  obtain ⟨logs', hinv, hleft⟩ := hwritten
  exact ⟨logs', j₂, hinv, hstarted, hleft⟩

/-! ## runs -/

theorem inv_create (logs : List LogFile) (h : Chained logs) (fileSizeLimit journalSizeLimit : Int) :
    Inv (create (directoryOf logs) fileSizeLimit journalSizeLimit) logs where
  dir := rfl
  chained := h
  context hsize := absurd hsize (by simp [create])

/-- What is asked of a step; a restart may come at any time. -/
def StepOk (j : ShvFileJournal) : Step → Prop
  | .append now entry => AppendOk now entry j
  | .restart _ _ => True

/-- What is asked of the steps of a run, each in the state that it is taken in. -/
def StepsOk (j : ShvFileJournal) : List Step → Prop
  | [] => True
  | s :: steps => StepOk j s ∧ StepsOk (j.step s) steps

theorem Inv.step {j : ShvFileJournal} {logs : List LogFile} (h : Inv j logs) {s : Step}
    (hok : StepOk j s) : ∃ logs', Inv (j.step s) logs' := by
  cases s with
  | append now entry =>
    obtain ⟨hpositive, ⟨es, hline, hclear⟩, hnew⟩ := hok
    obtain ⟨logs', -, hinv, -⟩ := h.append hpositive hline hclear hnew
    exact ⟨logs', hinv⟩
  | restart fileSizeLimit journalSizeLimit =>
    refine ⟨logs, ?_⟩
    rw [ShvFileJournal.step, h.dir]
    exact inv_create logs h.chained fileSizeLimit journalSizeLimit

/-- Every run keeps the checkpoints. -/
theorem Inv.run {j : ShvFileJournal} {logs : List LogFile} (h : Inv j logs) {steps : List Step}
    (hok : StepsOk j steps) : ∃ logs', Inv (j.run steps) logs' := by
  induction steps generalizing j logs with
  | nil => exact ⟨logs, h⟩
  | cons s steps ih =>
    obtain ⟨logs', h'⟩ := h.step hok.1
    exact ih h' hok.2

end LibShv.ShvFileJournal
