import LibShv.ShvFileJournal

/-!
# LibShv.ShvFileJournal.Files

The directory of a journal as a list of files by their starts, the oldest first: what is read
from it, what is written to it, and which files are left when the oldest are deleted.
-/

namespace LibShv.ShvFileJournal

open ShvJournalFileWriter ShvJournalFileReader

/-! ## the files of a journal -/

/-- A file by its start. -/
abbrev LogFile := Int64 × Bytes

/-- The directory of the files. -/
def directoryOf (logs : List LogFile) : Directory :=
  logs.map fun log => (fileMsecToFileName log.1, log.2)

/-- The size of all the files. -/
def totalSize (logs : List LogFile) : Int := (logs.map fun log => (log.2.length : Int)).sum

/-- The files are in the order of their starts, which their names are read as. -/
structure Filed (logs : List LogFile) : Prop where
  sorted : logs.Pairwise fun log log' => log.1 < log'.1
  named : ∀ log ∈ logs, fileNameToFileMsec (fileMsecToFileName log.1) = .ok log.1

theorem filed_nil : Filed [] := ⟨List.Pairwise.nil, fun _ h => absurd h List.not_mem_nil⟩

theorem named_of_toOption {start : Int64}
    (h : (fileNameToFileMsec (fileMsecToFileName start)).toOption = some start) :
    fileNameToFileMsec (fileMsecToFileName start) = .ok start := by
  cases hname : fileNameToFileMsec (fileMsecToFileName start) with
  | error msg => simp [hname, Except.toOption] at h
  | ok msec =>
    rw [hname, Except.toOption, Option.some.injEq] at h
    rw [h]

theorem Filed.tail {log : LogFile} {logs : List LogFile} (h : Filed (log :: logs)) :
    Filed logs where
  sorted := (List.pairwise_cons.mp h.sorted).2
  named x hx := h.named x (List.mem_cons_of_mem _ hx)

theorem Filed.drop {logs : List LogFile} (h : Filed logs) (k : Nat) : Filed (logs.drop k) where
  sorted := h.sorted.sublist (List.drop_sublist k logs)
  named x hx := h.named x (List.mem_of_mem_drop hx)

theorem Filed.start_inj {logs : List LogFile} (h : Filed logs) {log log' : LogFile}
    (hlog : log ∈ logs) (hlog' : log' ∈ logs)
    (heq : fileMsecToFileName log.1 = fileMsecToFileName log'.1) : log.1 = log'.1 := by
  have hnamed := h.named log hlog
  rw [heq, h.named log' hlog'] at hnamed
  exact (Except.ok.inj hnamed).symm

/-- The names of the files are all different. -/
theorem Filed.name_ne {log : LogFile} {logs : List LogFile} (h : Filed (log :: logs)) :
    ∀ log' ∈ logs, fileMsecToFileName log'.1 ≠ fileMsecToFileName log.1 := by
  intro log' hlog' heq
  have hlt := (List.pairwise_cons.mp h.sorted).1 log' hlog'
  rw [h.start_inj (List.mem_cons_of_mem _ hlog') List.mem_cons_self heq] at hlt
  exact Int64.lt_irrefl hlt

/-- A file behind the others. -/
theorem Filed.concat {logs : List LogFile} {log : LogFile} (h : Filed logs)
    (hnamed : fileNameToFileMsec (fileMsecToFileName log.1) = .ok log.1)
    (hnewer : ∀ log' ∈ logs, log'.1 < log.1) : Filed (logs ++ [log]) where
  sorted := by
    refine List.pairwise_append.mpr ⟨h.sorted, List.pairwise_singleton _ _, ?_⟩
    intro log' hlog' x hx
    rw [List.mem_singleton.mp hx]
    exact hnewer log' hlog'
  named x hx := by
    rcases List.mem_append.mp hx with hx | hx
    · exact h.named x hx
    · rwa [List.mem_singleton.mp hx]

/-- More text at the end of the last file. -/
theorem Filed.extend {logs : List LogFile} {log : LogFile} (h : Filed (logs ++ [log]))
    (text : Bytes) : Filed (logs ++ [(log.1, text)]) := by
  obtain ⟨hinit, -, hlast⟩ := List.pairwise_append.mp h.sorted
  exact Filed.concat ⟨hinit, fun x hx => h.named x (List.mem_append_left _ hx)⟩
    (h.named log (List.mem_append_right _ (List.mem_singleton_self log)))
    fun x hx => hlast x hx log (List.mem_singleton_self log)

/-! ## the directory -/

theorem find?_directoryOf {logs : List LogFile} (h : Filed logs) {log : LogFile}
    (hlog : log ∈ logs) : (directoryOf logs).find? (fileMsecToFileName log.1) = some log.2 := by
  induction logs with
  | nil => exact absurd hlog List.not_mem_nil
  | cons log' logs ih =>
    rw [directoryOf, List.map_cons, Directory.find?]
    rcases List.mem_cons.mp hlog with rfl | hlog
    · rw [if_pos rfl]
    · rw [if_neg (h.name_ne log hlog).symm]
      exact ih h.tail hlog

theorem find?_directoryOf_last {logs : List LogFile} {start : Int64} {text : Bytes}
    (h : Filed (logs ++ [(start, text)])) :
    (directoryOf (logs ++ [(start, text)])).find? (fileMsecToFileName start) = some text :=
  @find?_directoryOf _ h (start, text) (List.mem_append_right _ (List.mem_singleton_self _))

theorem fileSize_directoryOf {logs : List LogFile} (h : Filed logs) {log : LogFile}
    (hlog : log ∈ logs) :
    (directoryOf logs).fileSize (fileMsecToFileName log.1) = log.2.length := by
  rw [Directory.fileSize, find?_directoryOf h hlog]

/-- The sizes of the files that are listed. -/
theorem sum_fileSize_directoryOf {logs : List LogFile} (h : Filed logs) :
    ((logs.map (·.1)).map fun msec => (directoryOf logs).fileSize (fileMsecToFileName msec)).sum =
      totalSize logs := by
  rw [totalSize, List.map_map]
  exact congrArg _ (List.map_congr_left fun log hlog => fileSize_directoryOf h hlog)

theorem remove_directoryOf {log : LogFile} {logs : List LogFile} (h : Filed (log :: logs)) :
    (directoryOf (log :: logs)).remove (fileMsecToFileName log.1) = directoryOf logs := by
  rw [directoryOf, List.map_cons, Directory.remove, List.filter_cons_of_neg (by simp)]
  refine List.filter_eq_self.mpr fun file hfile => ?_
  obtain ⟨log', hlog', rfl⟩ := List.mem_map.mp hfile
  simpa using h.name_ne log' hlog'

theorem append_directoryOf_new {logs : List LogFile} {fn text : Bytes}
    (hnew : ∀ log ∈ logs, fileMsecToFileName log.1 ≠ fn) :
    (directoryOf logs).append fn text = directoryOf logs ++ [(fn, text)] := by
  induction logs with
  | nil => rfl
  | cons log logs ih =>
    rw [directoryOf, List.map_cons, Directory.append, if_neg (hnew log List.mem_cons_self),
      List.cons_append]
    exact congrArg _ (ih fun log' hlog' => hnew log' (List.mem_cons_of_mem _ hlog'))

theorem append_directoryOf_last {logs : List LogFile} {log : LogFile} (text : Bytes)
    (h : Filed (logs ++ [log])) :
    (directoryOf (logs ++ [log])).append (fileMsecToFileName log.1) text =
      directoryOf (logs ++ [(log.1, log.2 ++ text)]) := by
  induction logs with
  | nil => simp [directoryOf, Directory.append]
  | cons log' logs ih =>
    rw [List.cons_append, directoryOf, List.map_cons, Directory.append,
      if_neg (h.name_ne log (by simp)).symm]
    exact congrArg _ (ih h.tail)

/-- A new file is behind the others in the directory. -/
theorem append_directoryOf_start {logs : List LogFile} {start : Int64} {text : Bytes}
    (h : Filed (logs ++ [(start, text)])) :
    (directoryOf logs).append (fileMsecToFileName start) text =
      directoryOf (logs ++ [(start, text)]) := by
  have hstart : (start, text) ∈ logs ++ [(start, text)] :=
    List.mem_append_right _ (List.mem_singleton_self _)
  rw [append_directoryOf_new fun log' hlog' heq => ?_, directoryOf, directoryOf, List.map_append]
  · rfl
  · have hlt := (List.pairwise_append.mp h.sorted).2.2 log' hlog' _ (List.mem_singleton_self _)
    rw [h.start_inj (List.mem_append_left _ hlog') hstart heq] at hlt
    exact Int64.lt_irrefl hlt

/-! ## the status -/

theorem insertMsec_of_lt {msec : Int64} {ms : List Int64} (h : ∀ m ∈ ms, msec < m) :
    insertMsec msec ms = msec :: ms := by
  cases ms with
  | nil => rfl
  | cons m ms => rw [insertMsec, if_pos (Int64.le_of_lt (h m List.mem_cons_self))]

theorem sortMsecs_of_sorted {ms : List Int64} (h : ms.Pairwise (· < ·)) : sortMsecs ms = ms := by
  induction ms with
  | nil => rfl
  | cons m ms ih =>
    obtain ⟨hlt, htail⟩ := List.pairwise_cons.mp h
    rw [sortMsecs, ih htail, insertMsec_of_lt hlt]

theorem mapM_fileNameToFileMsec {logs : List LogFile}
    (h : ∀ log ∈ logs, fileNameToFileMsec (fileMsecToFileName log.1) = .ok log.1) :
    ((directoryOf logs).mapM fun file => fileNameToFileMsec file.1) = .ok (logs.map (·.1)) := by
  induction logs with
  | nil => rfl
  | cons log logs ih =>
    have ih := ih fun x hx => h x (List.mem_cons_of_mem _ hx)
    rw [directoryOf, List.map_cons, List.mapM_cons, h log List.mem_cons_self]
    rw [directoryOf] at ih
    simp only [bind, Except.bind, ih, pure, Except.pure, List.map_cons]

theorem totalSize_nonneg (logs : List LogFile) : 0 ≤ totalSize logs := by
  refine List.sum_nonneg fun size hsize => ?_
  obtain ⟨log, -, rfl⟩ := List.mem_map.mp hsize
  exact Int.natCast_nonneg _

theorem totalSize_append (logs logs' : List LogFile) :
    totalSize (logs ++ logs') = totalSize logs + totalSize logs' := by
  rw [totalSize, List.map_append, List.sum_append, totalSize, totalSize]

/-- `updateJournalStatus` lists the files and adds up their sizes. -/
theorem updateJournalStatus_directoryOf {j : ShvFileJournal} {logs : List LogFile}
    (hdir : j.dir = directoryOf logs) (h : Filed logs) :
    ∃ lastFileSize, j.updateJournalStatus = .ok { j with context := { j.context with
      files := logs.map (·.1)
      journalSize := totalSize logs
      lastFileSize } } := by
  have hsizes : (j.dir.map fun file => (file.2.length : Int)).foldl (· + ·) 0 = totalSize logs := by
    rw [hdir, directoryOf, List.map_map, ← List.sum_eq_foldl]
    rfl
  rw [updateJournalStatus]
  simp only [hsizes]
  rw [hdir, mapM_fileNameToFileMsec h.named]
  dsimp only
  rw [sortMsecs_of_sorted (List.pairwise_map.mpr h.sorted)]
  exact ⟨_, rfl⟩

/-- The oldest files are deleted, but the newest is kept. -/
theorem deleteOldest_directoryOf {logs : List LogFile} (h : Filed logs) (limit size : Int) :
    ∃ k, deleteOldest limit (logs.map (·.1)) logs.length size (directoryOf logs) =
        directoryOf (logs.drop k) ∧ (logs ≠ [] → k < logs.length) := by
  induction logs generalizing size with
  | nil => exact ⟨0, rfl, fun hne => absurd rfl hne⟩
  | cons log logs ih =>
    rw [List.map_cons, deleteOldest, List.length_cons]
    by_cases hstop : logs.length + 1 = 1 ∨ size < limit
    · rw [if_pos hstop]
      exact ⟨0, rfl, fun _ => Nat.succ_pos _⟩
    · rw [if_neg hstop]
      dsimp only
      rw [remove_directoryOf h, Nat.add_sub_cancel]
      obtain ⟨k, hk, hlt⟩ := ih h.tail
        (size - (directoryOf (log :: logs)).fileSize (fileMsecToFileName log.1))
      refine ⟨k + 1, hk, fun _ => Nat.succ_lt_succ (hlt fun hnil => ?_)⟩
      exact hstop (.inl (by rw [hnil]; rfl))

/-! ## appending -/

/-- The journal as `appendThrow` works on it, with its context checked. -/
def ready (j : ShvFileJournal) : ShvFileJournal :=
  match j.checkJournalContext with
  | .ok j => j.checkRecentTimeStamp
  | .error (_, j) => j

/-- The time that an entry is given. -/
def entryTime (now : Int64) (entry : ShvJournalEntry) (j : ShvFileJournal) : Int64 :=
  max (timeOr now entry.epochMsec) j.context.recentTimeStamp

theorem max_eq_left_of_le {m n : Int64} (h : n ≤ m) : max m n = m := by
  show (if m ≤ n then n else m) = m
  split
  · next hmn => exact Int64.le_antisymm h hmn
  · rfl

theorem le_max_right (m n : Int64) : n ≤ max m n := by
  show n ≤ if m ≤ n then n else m
  split
  · exact Int64.le_refl n
  · next hmn => exact Int64.le_of_lt (Int64.not_le.mp hmn)

/-- A file with a start of its own. -/
theorem createNewLogFile_of_pos (now : Int64) {start : Int64} (h : 0 < start) (j : ShvFileJournal) :
    j.createNewLogFile now start = .ok { j with
      dir := j.dir.append (fileMsecToFileName start) (snapshotText start j.snapshot)
      context := { j.context with
        files := j.context.files ++ [start]
        recentTimeStamp := start } } := by
  have hne : start ≠ 0 := fun heq => Int64.lt_irrefl (heq ▸ h)
  rw [createNewLogFile, if_neg fun hthrow => hne hthrow.1, if_neg hne]

/-- Without a new file an entry goes to the last one. -/
theorem logFile_of_not_needsNewFile {j : ShvFileJournal} {logs : List LogFile}
    (hfiles : j.context.files = logs.map (·.1)) (h : ¬j.needsNewFile = true) (now msec : Int64) :
    ∃ logs' log, logs = logs' ++ [log] ∧ j.logFile now msec = .ok (j, log.1) := by
  rcases List.eq_nil_or_concat logs with rfl | ⟨logs', log, rfl⟩
  · exact absurd (by simp [needsNewFile, hfiles]) h
  · rw [List.concat_eq_append] at hfiles ⊢
    refine ⟨logs', log, rfl, ?_⟩
    rw [logFile, if_neg h, hfiles, List.map_append, List.map_singleton, List.getLast?_concat,
      Option.getD_some]

/-- The last file is not older than itself. -/
theorem not_lt_getLast {j : ShvFileJournal} {logs : List LogFile} {log : LogFile}
    (hfiles : j.context.files = (logs ++ [log]).map (·.1)) :
    ¬∃ last ∈ j.context.files.getLast?, log.1 < last := by
  rintro ⟨last, hlast, hlt⟩
  rw [hfiles, List.map_append, List.map_singleton, List.getLast?_concat] at hlast
  exact Int64.lt_irrefl (Option.some.inj hlast ▸ hlt)

end LibShv.ShvFileJournal
