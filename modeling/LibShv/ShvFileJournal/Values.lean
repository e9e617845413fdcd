import LibShv.ShvFileJournal.Bookkeeping
import LibShv.ShvFileJournal.Checkpoints
import LibShv.ShvJournalFile.RoundTrip

/-!
# LibShv.ShvFileJournal.Values

Rotating a journal forgets no value: as long as one object appends, every file starts with all the
values there are, and so from whichever file on the journal is read, the last values are those of
all the entries that were ever appended.
-/

namespace LibShv.ShvFileJournal

open ShvJournalFileWriter ShvJournalFileReader Replay ShvSnapshot

/-! ## values -/

/-- The entry gives the path this value. -/
def Sets (e : ShvJournalEntry) (pv : Bytes × RpcValue) : Prop :=
  e.IsValueChange ∧ e.path = pv.1 ∧ e.value = pv.2

/-- The entry takes away the value that the path had. -/
def Unsets (e : ShvJournalEntry) (pv : Bytes × RpcValue) : Prop :=
  e.IsValueChange ∧ e.path = pv.1 ∨ e.IsDrop ∧ Covers e.path pv.1

/-- The entries leave the path with this value. -/
abbrev LastValueIs (span : List ShvJournalEntry) (path : Bytes) (v : RpcValue) : Prop :=
  Survives Sets Unsets span (path, v)

/-- The snapshot has the value. -/
def Knows (snapshot : ShvSnapshot) (pv : Bytes × RpcValue) : Prop :=
  ∃ e, (pv.1, e) ∈ snapshot ∧ e.value = pv.2

/-- Of the entries in a snapshot only the values count. -/
theorem replays_knows : Replays SortedMap.Sorted Knows Sets Unsets addToSnapshot where
  inv := replays_addToSnapshot.inv
  mem_iff := by
    intro s e s' hs h pv
    have hmem := replays_addToSnapshot.mem_iff hs h
    have hremoves : ∀ x, Removes e (pv.1, x) ↔ Unsets e pv := fun x => by
      rw [Removes, Unsets, eq_comm]
    constructor
    · rintro ⟨x, hx, hvalue⟩
      rcases (hmem (pv.1, x)).mp hx with ⟨hchange, heq⟩ | ⟨hx, hkept⟩
      · obtain ⟨hpath, rfl⟩ := Prod.mk.inj heq
        exact .inl ⟨hchange, hpath.symm, hvalue⟩
      · exact .inr ⟨⟨x, hx, hvalue⟩, fun hunsets => hkept ((hremoves x).mpr hunsets)⟩
    · rintro (⟨hchange, hpath, hvalue⟩ | ⟨⟨x, hx, hvalue⟩, hkept⟩)
      · exact ⟨e, (hmem _).mpr (.inl ⟨hchange, by rw [hpath]⟩), hvalue⟩
      · exact ⟨x, (hmem _).mpr (.inr ⟨hx, fun h => hkept ((hremoves x).mp h)⟩), hvalue⟩

/-- The time of an entry does not count. -/
theorem clear_at {e : ShvJournalEntry} (h : e.Clear) (msec : Int64) :
    ShvJournalEntry.Clear { e with epochMsec := msec } := h

theorem sets_at {e : ShvJournalEntry} {msec : Int64} {pv : Bytes × RpcValue} :
    Sets { e with epochMsec := msec } pv ↔ Sets e pv := Iff.rfl

theorem unsets_at {e : ShvJournalEntry} {msec : Int64} {pv : Bytes × RpcValue} :
    Unsets { e with epochMsec := msec } pv ↔ Unsets e pv := Iff.rfl

/-! ## texts -/

/-- An entry that a line can hold whatever its time is. Without a domain it would be read as a
change of a value. -/
structure Textual (entry : ShvJournalEntry) : Prop where
  path_ne_nil : entry.path ≠ []
  plain_path : CponWriter.Plain entry.path
  domain_ne_nil : entry.domain ≠ []
  plain_domain : CponWriter.Plain entry.domain
  plain_userId : CponWriter.Plain entry.userId
  value : fromCpon (CponWriter.toCpon [] entry.value) = .ok (some entry.value)

/-- A time that is read back from its text. -/
structure TimeReads (msec : Int64) : Prop where
  positive : 0 < msec
  msecs : (RpcDateTime.fromIsoString (timeText msec)).1.msecsSinceEpoch = msec
  length : (RpcDateTime.fromIsoString (timeText msec)).2 = (timeText msec).length

theorem Textual.storable {entry : ShvJournalEntry} (h : Textual entry) {msec : Int64}
    (ht : TimeReads msec) : Storable { entry with epochMsec := msec } :=
  ⟨ht.positive, ht.msecs, ht.length, h.path_ne_nil, h.plain_path, h.plain_domain, h.plain_userId,
    h.value⟩

theorem Textual.at {entry : ShvJournalEntry} (h : Textual entry) (msec : Int64) :
    Textual { entry with epochMsec := msec } :=
  ⟨h.path_ne_nil, h.plain_path, h.domain_ne_nil, h.plain_domain, h.plain_userId, h.value⟩

theorem Textual.snapshotEntry {entry : ShvJournalEntry} (h : Textual entry) :
    Textual (snapshotEntry entry) :=
  ⟨h.path_ne_nil, h.plain_path, h.domain_ne_nil, h.plain_domain, h.plain_userId, h.value⟩

/-- What is read does the same to the values as what was written. -/
theorem Textual.readEntry_iff {entry : ShvJournalEntry} (h : Textual entry) (msec : Int64)
    (pv : Bytes × RpcValue) :
    (Sets (readEntry { entry with epochMsec := msec }) pv ↔ Sets entry pv) ∧
      (Unsets (readEntry { entry with epochMsec := msec }) pv ↔ Unsets entry pv) := by
  have hdomain : (readEntry { entry with epochMsec := msec }).domain = entry.domain :=
    if_neg h.domain_ne_nil
  have hchange : (readEntry { entry with epochMsec := msec }).IsValueChange ↔
      entry.IsValueChange := by
    rw [ShvJournalEntry.IsValueChange, hdomain]
    rfl
  have hdrop : (readEntry { entry with epochMsec := msec }).IsDrop ↔ entry.IsDrop := by
    rw [ShvJournalEntry.IsDrop, hdomain]
    rfl
  rw [Sets, Unsets, hchange, hdrop]
  exact ⟨Iff.rfl, Iff.rfl⟩

theorem readFile_line {entry : ShvJournalEntry} (h : Textual entry) {msec : Int64}
    (ht : TimeReads msec) :
    readFile (line msec msec entry) = .ok [readEntry { entry with epochMsec := msec }] := by
  have hne : msec ≠ 0 := (Int64.ne_of_lt ht.positive).symm
  have hread := readFile_append_entry (h.storable ht) 0
  rwa [ShvJournalFileWriter.append, if_neg hne] at hread

/-- A snapshot in memory: the values under their paths. -/
structure Snapshotted (snapshot : ShvSnapshot) : Prop where
  sorted : SortedMap.Sorted snapshot
  values : ∀ kv ∈ snapshot, kv.2.path = kv.1 ∧ kv.2.IsValueChange ∧ Textual kv.2

/-- At the start of a file there are all the values of the snapshot. -/
theorem lastValueIs_snapshotText {snapshot : ShvSnapshot} (h : Snapshotted snapshot) {msec : Int64}
    (ht : TimeReads msec) :
    ∃ es, readFile (snapshotText msec snapshot) = .ok es ∧
      (∀ e ∈ es, e.IsValueChange ∧ ∃ kv ∈ snapshot, e.path = kv.1) ∧
      ∀ pv, Survives Sets Unsets es pv ↔ Knows snapshot pv := by
  induction snapshot with
  | nil =>
    refine ⟨[], rfl, nofun, fun pv => iff_of_false (not_survives_nil pv) ?_⟩
    rintro ⟨e, he, -⟩
    exact absurd he List.not_mem_nil
  | cons kv snapshot ih =>
    obtain ⟨es, hes, hvalues, hknows⟩ := ih ⟨h.sorted.tail, fun x hx =>
      h.values x (List.mem_cons_of_mem _ hx)⟩
    obtain ⟨hpath, hchange, htextual⟩ := h.values kv List.mem_cons_self
    have hread := readFile_line htextual.snapshotEntry ht
    have hiff := htextual.snapshotEntry.readEntry_iff msec
    generalize readEntry { snapshotEntry kv.2 with epochMsec := msec } = e at hread hiff
    have he : Sets e (kv.1, kv.2.value) := (hiff _).1.mpr ⟨hchange, hpath, rfl⟩
    refine ⟨e :: es, readFile_append (ended_line _ _ _) hread hes, ?_, fun pv => ?_⟩
    · intro x hx
      rcases List.mem_cons.mp hx with rfl | hx
      · exact ⟨he.1, kv, List.mem_cons_self, he.2.1⟩
      · obtain ⟨hx, kv', hkv', hpath'⟩ := hvalues x hx
        exact ⟨hx, kv', List.mem_cons_of_mem _ hkv', hpath'⟩
    · have hone : Survives Sets Unsets [e] pv ↔ Sets e pv := by
        have hconcat := @survives_concat _ _ Sets Unsets [] e pv
        rwa [List.nil_append, or_iff_left fun hnil => not_survives_nil pv hnil.1] at hconcat
      rw [← List.singleton_append, survives_append, hknows, hone]
      constructor
      · rintro (⟨x, hx, hvalue⟩ | ⟨⟨-, hp, hv⟩, -⟩)
        · exact ⟨x, List.mem_cons_of_mem _ hx, hvalue⟩
        · refine ⟨kv.2, ?_, he.2.2.symm.trans hv⟩
          rw [← hp, he.2.1]
          exact List.mem_cons_self
      · rintro ⟨x, hx, hvalue⟩
        rcases List.mem_cons.mp hx with heq | hx
        · -- no other entry of the snapshot is under this path
          have hkey : pv.1 = kv.1 := congrArg Prod.fst heq
          have hentry : x = kv.2 := congrArg Prod.snd heq
          refine .inr ⟨⟨he.1, he.2.1.trans hkey.symm, ?_⟩, fun d hd hunsets => ?_⟩
          · rw [he.2.2, ← hentry, hvalue]
          · obtain ⟨hdchange, kv', hkv', hdpath⟩ := hvalues d hd
            rcases hunsets with ⟨-, hp⟩ | ⟨hdrop, -⟩
            · exact h.sorted.ne_of_mem hkv' (by rw [← hdpath, hp, hkey])
            · exact hdrop.not_isValueChange hdchange
        · exact .inl ⟨x, hx, hvalue⟩

/-! ## files -/

/-- A journal on the files of a directory, which a new object has not read yet. -/
structure OnFiles (j : ShvFileJournal) (logs : List LogFile) : Prop where
  dir : j.dir = directoryOf logs
  filed : Filed logs
  context : 0 ≤ j.context.journalSize → j.context.files = logs.map (·.1)

/-- A journal that knows the files of its directory. -/
structure Listed (j : ShvFileJournal) (logs : List LogFile) : Prop where
  dir : j.dir = directoryOf logs
  filed : Filed logs
  files : j.context.files = logs.map (·.1)
  consistent : 0 ≤ j.context.journalSize

theorem Listed.onFiles {j : ShvFileJournal} {logs : List LogFile} (h : Listed j logs) :
    OnFiles j logs :=
  ⟨h.dir, h.filed, fun _ => h.files⟩

theorem Listed.of_updateJournalStatus {j : ShvFileJournal} {logs : List LogFile}
    (hdir : j.dir = directoryOf logs) (hfiled : Filed logs) :
    ∃ j', j.updateJournalStatus = .ok j' ∧ Listed j' logs ∧ j'.snapshot = j.snapshot := by
  obtain ⟨lastFileSize, hj'⟩ := updateJournalStatus_directoryOf hdir hfiled
  exact ⟨_, hj', ⟨hdir, hfiled, rfl, totalSize_nonneg logs⟩, rfl⟩

theorem OnFiles.ready {j : ShvFileJournal} {logs : List LogFile} (h : OnFiles j logs) :
    ∃ j', j.checkJournalContext = .ok j' ∧ j.ready = j'.checkRecentTimeStamp ∧
      Listed j.ready logs ∧ j.ready.snapshot = j.snapshot := by
  have hcheck : ∃ j', j.checkJournalContext = .ok j' ∧ Listed j' logs ∧
      j'.snapshot = j.snapshot := by
    rw [checkJournalContext]
    by_cases hsize : 0 ≤ j.context.journalSize
    · rw [if_pos hsize]
      exact ⟨j, rfl, ⟨h.dir, h.filed, h.context hsize, hsize⟩, rfl⟩
    · rw [if_neg hsize]
      obtain ⟨j', hj', hlisted, hsnapshot⟩ := @Listed.of_updateJournalStatus
        { j with context := { j.context with recentTimeStamp := 0 } } logs h.dir h.filed
      exact ⟨j', hj', hlisted, hsnapshot⟩
  obtain ⟨j', hj', hlisted, hsnapshot⟩ := hcheck
  have hj : j.ready = j'.checkRecentTimeStamp := by rw [ShvFileJournal.ready, hj']
  refine ⟨j', hj', hj, ?_⟩
  rw [hj, checkRecentTimeStamp]
  split
  · exact ⟨hlisted, hsnapshot⟩
  · exact ⟨⟨hlisted.dir, hlisted.filed, hlisted.files, hlisted.consistent⟩, hsnapshot⟩

/-- The oldest files are deleted, and the newest is kept. -/
theorem Listed.rotateJournal {j : ShvFileJournal} {logs : List LogFile} (h : Listed j logs) :
    ∃ j' k, j.rotateJournal = .ok j' ∧ Listed j' (logs.drop k) ∧
      (logs ≠ [] → k < logs.length) ∧ j'.snapshot = j.snapshot := by
  obtain ⟨j₁, hj₁, hlisted, hsnapshot₁⟩ := Listed.of_updateJournalStatus h.dir h.filed
  obtain ⟨k, hk, hlt⟩ := deleteOldest_directoryOf hlisted.filed j₁.journalSizeLimit
    j₁.context.journalSize
  have hlength : logs.length = j₁.context.files.length := by rw [hlisted.files, List.length_map]
  rw [← hlisted.files, ← hlisted.dir, hlength] at hk
  obtain ⟨j₂, hj₂, hlisted₂, hsnapshot₂⟩ := @Listed.of_updateJournalStatus
    { j₁ with dir := deleteOldest j₁.journalSizeLimit j₁.context.files j₁.context.files.length
                j₁.context.journalSize j₁.dir } _ hk (hlisted.filed.drop k)
  rw [ShvFileJournal.rotateJournal, hj₁]
  exact ⟨j₂, k, hj₂, hlisted₂, hlt, hsnapshot₂.trans hsnapshot₁⟩

/-- The file of an entry is the last one, or a new one that starts with the snapshot. -/
theorem Listed.logFile {j : ShvFileJournal} {logs : List LogFile} (h : Listed j logs) {now msec : Int64}
    (hrecent : j.context.recentTimeStamp ≤ msec)
    (hstart : j.needsNewFile = true → StartBooks msec j) :
    ∃ j' logs' log, j.logFile now msec = .ok (j', log.1) ∧ Listed j' (logs' ++ [log]) ∧
      j'.context.recentTimeStamp ≤ msec ∧ j'.snapshot = j.snapshot ∧
      (logs = logs' ++ [log] ∨ logs = logs' ∧ log = (msec, snapshotText msec j.snapshot)) := by
  by_cases hnew : j.needsNewFile = true
  · obtain ⟨hpositive, hnewer, hnamed⟩ := hstart hnew
    have hfiled : Filed (logs ++ [(msec, snapshotText msec j.snapshot)]) :=
      h.filed.concat hnamed fun log hlog =>
        hnewer log.1 (by rw [h.files]; exact List.mem_map_of_mem hlog)
    rw [ShvFileJournal.logFile, if_pos hnew, createNewLogFile_of_pos now hpositive]
    refine ⟨_, logs, (msec, snapshotText msec j.snapshot), rfl, ⟨?_, hfiled, ?_, h.consistent⟩,
      Int64.le_refl _, rfl, .inr ⟨rfl, rfl⟩⟩
    · dsimp only
      rw [h.dir]
      exact append_directoryOf_start hfiled
    · dsimp only
      rw [h.files, List.map_append]
      rfl
  · obtain ⟨logs', log, rfl, hlog⟩ := logFile_of_not_needsNewFile h.files hnew now msec
    exact ⟨j, logs', log, hlog, h, hrecent, rfl, .inl rfl⟩

/-- The line goes to the last file, and then the oldest files may be deleted. -/
theorem Listed.writeEntry {j : ShvFileJournal} {logs : List LogFile} {log : LogFile}
    (h : Listed j (logs ++ [log])) (now : Int64) {e : ShvJournalEntry} (hpositive : 0 < e.epochMsec)
    (hrecent : j.context.recentTimeStamp ≤ e.epochMsec) {snapshot : ShvSnapshot}
    (hadd : addToSnapshot j.snapshot e = .ok snapshot) :
    ∃ j' k, j.writeEntry now log.1 e = .ok j' ∧ k ≤ logs.length ∧ j'.snapshot = snapshot ∧
      Listed j' ((logs ++ [(log.1, log.2 ++ line e.epochMsec e.epochMsec e)]).drop k) := by
  have hne : e.epochMsec ≠ 0 := fun heq => Int64.lt_irrefl (heq ▸ hpositive)
  have hmsec : (if 0 < j.context.recentTimeStamp then
      max e.epochMsec j.context.recentTimeStamp else e.epochMsec) = e.epochMsec := by
    rw [max_eq_left_of_le hrecent, ite_self]
  have hlisted : ∀ lastFileSize : Int, Listed
      ⟨j.dir.append (fileMsecToFileName log.1) (line e.epochMsec e.epochMsec e), snapshot,
        ⟨j.context.files, j.context.journalSize + (line e.epochMsec e.epochMsec e).length,
          lastFileSize, e.epochMsec⟩, j.fileSizeLimit, j.journalSizeLimit⟩
      (logs ++ [(log.1, log.2 ++ line e.epochMsec e.epochMsec e)]) := by
    intro lastFileSize
    refine ⟨?_, h.filed.extend _, ?_, Int.add_nonneg h.consistent (Int.natCast_nonneg _)⟩
    · dsimp only
      rw [h.dir, append_directoryOf_last _ h.filed]
    · dsimp only
      rw [h.files, List.map_append, List.map_append]
      rfl
  rw [ShvFileJournal.writeEntry, hadd]
  simp only [timeOr, if_neg hne, hmsec]
  split
  · obtain ⟨j', k, hj', hlisted', hlt, hsnapshot⟩ := (hlisted _).rotateJournal
    have hk := hlt (List.append_ne_nil_of_right_ne_nil _ (List.cons_ne_nil _ _))
    rw [List.length_append, List.length_singleton] at hk
    exact ⟨j', k, hj', Nat.le_of_lt_succ hk, hsnapshot, hlisted'⟩
  · exact ⟨_, 0, rfl, Nat.zero_le _, rfl, hlisted _⟩

/-! ## what the files tell -/

/-- Lines that can be read. -/
structure Reads (text : Bytes) : Prop where
  ended : Ended text
  reads : readFile text = .ok (textEntries text)

/-- From every file on the files tell the values in memory. -/
structure Tells (j : ShvFileJournal) (logs : List LogFile) : Prop where
  onFiles : OnFiles j logs
  reads : ∀ log ∈ logs, Reads log.2
  snapshotted : Snapshotted j.snapshot
  tells : ∀ newest, newest ≠ [] → newest <:+ logs → ∀ pv,
    Survives Sets Unsets (entriesOf newest) pv ↔ Knows j.snapshot pv

theorem Snapshotted.addToSnapshot {snapshot snapshot' : ShvSnapshot} (h : Snapshotted snapshot)
    {e : ShvJournalEntry} (he : Textual e) (hadd : addToSnapshot snapshot e = .ok snapshot') :
    Snapshotted snapshot' where
  sorted := replays_addToSnapshot.inv h.sorted hadd
  values kv hkv := by
    rcases (replays_addToSnapshot.mem_iff h.sorted hadd kv).mp hkv with ⟨hchange, rfl⟩ | ⟨hkv, -⟩
    · exact ⟨rfl, hchange, he⟩
    · exact h.values kv hkv

/-- What is asked of an entry: that its line, its time and the name of the file that it may start
can be read, and that it does not throw. -/
structure AppendTells (now : Int64) (entry : ShvJournalEntry) (j : ShvFileJournal) : Prop where
  time : TimeReads (entryTime now entry j.ready)
  text : Textual entry
  clear : entry.Clear
  start : j.ready.needsNewFile = true → StartBooks (entryTime now entry j.ready) j.ready

/-- A suffix of the files with a new last one. -/
theorem suffix_concat_cases {newest logs : List LogFile} {log : LogFile} (hne : newest ≠ [])
    (h : newest <:+ logs ++ [log]) : ∃ older, newest = older ++ [log] ∧ older <:+ logs := by
  rcases List.suffix_concat_iff.mp h with rfl | ⟨older, rfl, holder⟩
  · exact absurd rfl hne
  · exact ⟨older, rfl, holder⟩

theorem entriesOf_concat (logs : List LogFile) (log : LogFile) :
    entriesOf (logs ++ [log]) = entriesOf logs ++ textEntries log.2 := by
  rw [entriesOf_append]
  simp [entriesOf]

/-- A new file starts with all the values. -/
theorem Tells.start {j : ShvFileJournal} {logs : List LogFile} (h : Tells j logs) {msec : Int64}
    (ht : TimeReads msec) :
    Reads (snapshotText msec j.snapshot) ∧
    ∀ newest, newest ≠ [] → newest <:+ logs ++ [(msec, snapshotText msec j.snapshot)] → ∀ pv,
      Survives Sets Unsets (entriesOf newest) pv ↔ Knows j.snapshot pv := by
  obtain ⟨es, hes, hvalues, hknows⟩ := lastValueIs_snapshotText h.snapshotted ht
  have htext := textEntries_of_readFile hes
  refine ⟨⟨ended_snapshotText _ _, by rw [htext]; exact hes⟩, fun newest hne hsuffix pv => ?_⟩
  obtain ⟨older, rfl, holder⟩ := suffix_concat_cases hne hsuffix
  rw [entriesOf_concat, htext, survives_append, hknows]
  cases older with
  | nil => exact or_iff_left fun hnil => not_survives_nil pv hnil.1
  | cons log older =>
    rw [h.tells _ (List.cons_ne_nil _ _) holder]
    exact or_iff_left_of_imp And.left

theorem reads_concat {logs : List LogFile} {log : LogFile} (hlogs : ∀ x ∈ logs, Reads x.2)
    (hlog : Reads log.2) : ∀ x ∈ logs ++ [log], Reads x.2 := by
  intro x hx
  rcases List.mem_append.mp hx with hx | hx
  · exact hlogs x hx
  · rw [List.mem_singleton.mp hx]
    exact hlog

/-- Whichever file an entry goes to, with that file the files tell the values so far. -/
theorem Tells.logFile {j : ShvFileJournal} {logs logs' : List LogFile} {log : LogFile}
    (h : Tells j logs) {msec : Int64} (ht : TimeReads msec)
    (hlast : logs = logs' ++ [log] ∨ logs = logs' ∧ log = (msec, snapshotText msec j.snapshot)) :
    (∀ x ∈ logs' ++ [log], Reads x.2) ∧
    ∀ newest, newest ≠ [] → newest <:+ logs' ++ [log] → ∀ pv,
      Survives Sets Unsets (entriesOf newest) pv ↔ Knows j.snapshot pv := by
  rcases hlast with rfl | ⟨rfl, rfl⟩
  · exact ⟨h.reads, h.tells⟩
  · obtain ⟨hreads, htells⟩ := h.start ht
    exact ⟨reads_concat h.reads hreads, htells⟩

/-- An entry does the same to the values in memory and to those in the files. -/
theorem Tells.append {j : ShvFileJournal} {logs : List LogFile} (h : Tells j logs) {now : Int64}
    {entry : ShvJournalEntry} (hok : AppendTells now entry j) :
    ∃ logs', logs' ≠ [] ∧ Tells (j.append now entry) logs' ∧
      addToSnapshot j.snapshot { entry with epochMsec := entryTime now entry j.ready } =
        .ok (j.append now entry).snapshot := by
  obtain ⟨j₁, hj₁, hj, hready, hsnapshot⟩ := h.onFiles.ready
  obtain ⟨j₂, logs₂, log, hj₂, hlisted₂, hrecent, hsnapshot₂, hlast⟩ :=
    @Listed.logFile j.ready logs hready now (entryTime now entry j.ready) (le_max_right _ _)
      hok.start
  rw [hsnapshot] at hsnapshot₂ hlast
  have hbefore := h.logFile hok.time hlast
  have htext := hok.text.at (entryTime now entry j.ready)
  have hline := readFile_line htext hok.time
  have hiff := htext.readEntry_iff (entryTime now entry j.ready)
  have hclear := clear_at hok.clear (entryTime now entry j.ready)
  have hpositive := hok.time.positive
  have happend : ∀ j₃, j₂.writeEntry now log.1
      { entry with epochMsec := entryTime now entry j.ready } = .ok j₃ → j.append now entry = j₃ := by
    intro j₃ hj₃
    rw [hj, entryTime] at hj₂ hj₃
    rw [ShvFileJournal.append, appendThrow, hj₁]
    simp only [bind, Except.bind, hj₂, if_neg (not_lt_getLast hlisted₂.files), hj₃]
  generalize entryTime now entry j.ready = msec at hrecent htext hline hiff hclear hpositive happend ⊢
  obtain ⟨snapshot, hadd⟩ := hclear.addToSnapshot j₂.snapshot
  obtain ⟨j₃, k, hj₃, hk, hsnapshot₃, hlisted₃⟩ :=
    hlisted₂.writeEntry now hpositive hrecent hadd
  rw [hsnapshot₂] at hadd
  rw [happend j₃ hj₃, hsnapshot₃]
  have hlog := hbefore.1 log (List.mem_append_right _ (List.mem_singleton_self log))
  have hread := readFile_append hlog.ended hlog.reads hline
  have htextEntries := textEntries_of_readFile hread
  have hreads : ∀ x ∈ logs₂ ++ [(log.1, log.2 ++ line msec msec { entry with epochMsec := msec })],
      Reads x.2 :=
    reads_concat (fun x hx => hbefore.1 x (List.mem_append_left _ hx))
      ⟨hlog.ended.append (ended_line _ _ _), by rw [htextEntries]; exact hread⟩
  refine ⟨_, ?_, ⟨hlisted₃.onFiles, fun x hx => hreads x (List.mem_of_mem_drop hx), ?_, ?_⟩, hadd⟩
  · rw [List.drop_append_of_le_length hk]
    exact List.append_ne_nil_of_right_ne_nil _ (List.cons_ne_nil _ _)
  · rw [hsnapshot₃]
    exact h.snapshotted.addToSnapshot htext hadd
  · intro newest hne hsuffix pv
    obtain ⟨older, rfl, holder⟩ := suffix_concat_cases hne (hsuffix.trans (List.drop_suffix k _))
    have hsuffix' : older ++ [log] <:+ logs₂ ++ [log] := by
      obtain ⟨oldest, rfl⟩ := holder
      exact ⟨oldest, by rw [List.append_assoc]⟩
    have hne' := List.append_ne_nil_of_right_ne_nil older (List.cons_ne_nil log [])
    rw [entriesOf_concat, htextEntries, ← List.append_assoc, ← entriesOf_concat, survives_concat,
      hbefore.2 _ hne' hsuffix', (hiff pv).1, (hiff pv).2, hsnapshot₃]
    exact (replays_knows.mem_iff h.snapshotted.sorted hadd pv).symm

/-! ## runs -/

/-- What is asked of the appends, each in the state that it is made in. -/
def AppendsTell (j : ShvFileJournal) : Appends → Prop
  | [] => True
  | (now, entry) :: as => AppendTells now entry j ∧ (j.append now entry).AppendsTell as

theorem tells_create (fileSizeLimit journalSizeLimit : Int) :
    Tells (create [] fileSizeLimit journalSizeLimit) [] where
  onFiles := ⟨rfl, filed_nil, fun hsize => absurd hsize (by simp [create])⟩
  reads := nofun
  snapshotted := ⟨SortedMap.sorted_nil, nofun⟩
  tells newest hne hsuffix := absurd (List.suffix_nil.mp hsuffix) hne

/-- A run keeps the values, and adds those of the entries to the ones in memory. -/
theorem Tells.appends {j : ShvFileJournal} {logs : List LogFile} (h : Tells j logs) {as : Appends}
    (hok : AppendsTell j as) {before : List ShvJournalEntry}
    (hbefore : ∀ pv, Survives Sets Unsets before pv ↔ Knows j.snapshot pv) :
    ∃ logs', (as ≠ [] ∨ logs ≠ [] → logs' ≠ []) ∧ Tells (j.appends as) logs' ∧
      ∀ pv, Survives Sets Unsets (before ++ as.map (·.2)) pv ↔ Knows (j.appends as).snapshot pv := by
  induction as generalizing j logs before with
  | nil =>
    refine ⟨logs, fun hne => hne.resolve_left fun hnil => hnil rfl, h, ?_⟩
    rwa [List.map_nil, List.append_nil]
  | cons a as ih =>
    obtain ⟨now, entry⟩ := a
    obtain ⟨logs₁, hne, htells, hadd⟩ := h.append hok.1
    have hknows : ∀ pv, Knows (j.append now entry).snapshot pv ↔
        Sets entry pv ∨ Knows j.snapshot pv ∧ ¬Unsets entry pv := fun pv =>
      (replays_knows.mem_iff h.snapshotted.sorted hadd pv).trans
        (or_congr sets_at (and_congr_right fun _ => not_congr unsets_at))
    have hafter : ∀ pv, Survives Sets Unsets (before ++ [entry]) pv ↔
        Knows (j.append now entry).snapshot pv := fun pv => by
      rw [survives_concat, hbefore, hknows]
    obtain ⟨logs', hne', htells', hbefore'⟩ := ih htells hok.2 hafter
    refine ⟨logs', fun _ => hne' (.inr hne), htells', fun pv => ?_⟩
    rw [List.map_cons, ← List.singleton_append, ← List.append_assoc]
    exact hbefore' pv

theorem appendTells_valueSince2018 {j : ShvFileJournal} {path : String} {seconds msec : Int64}
    (htime : entryTime 1 (valueSince2018 path seconds) j.ready = msec) (hreads : TimeReads msec)
    (hpath : ascii path ≠ []) (hplain : CponWriter.Plain (ascii path))
    (hfiles : j.ready.context.files.all (fun file => decide (file < msec)) = true)
    (hnamed : (fileNameToFileMsec (fileMsecToFileName msec)).toOption = some msec) :
    AppendTells 1 (valueSince2018 path seconds) j where
  time := htime ▸ hreads
  text := by
    have hdomain : CponWriter.Plain ShvJournalEntry.DOMAIN_VAL_CHANGE := by decide
    have hone : (1 : Int64) ≠ Int64.minValue := by decide
    refine ⟨hpath, hplain, List.cons_ne_nil _ _, hdomain, CponWriter.plain_nil,
      fromCpon_toCpon ?_ rfl⟩
    simp [RpcValue.CponStd, RpcValue.Each, RpcMetaData.Each, Variant.Each, eachIMap, eachMap,
      valueSince2018, RpcValue.ofVariant, Variant.CponStd, RpcMetaData.CponStd,
      SortedMap.sorted_nil, hone]
  clear := .inr ⟨false, rfl⟩
  start _ := htime ▸ ⟨hreads.positive, fun file hfile =>
    of_decide_eq_true (List.all_eq_true.mp hfiles file hfile), named_of_toOption hnamed⟩

end LibShv.ShvFileJournal
