import LibShv.ShvFileJournal.NewestFile

/-!
# LibShv.ShvFileJournal.Remembers

Only a restart makes a journal forget values: as long as one object appends, every path
that has a value in its files has one in its snapshot in memory, so that every file it
starts begins with a checkpoint.
-/

namespace LibShv.ShvFileJournal

open ShvJournalFileWriter ShvJournalFileReader GetLog Replay ShvSnapshot

/-- The line of an entry is read as an entry of the same path that does the same to a snapshot. -/
def ReadsBack (msec : Int64) (e : ShvJournalEntry) : Prop :=
  ∃ e', readFile (line msec msec e) = .ok [e'] ∧ e'.epochMsec = msec ∧ e'.path = e.path ∧
    e'.Clear ∧ (e'.IsValueChange ↔ e.IsValueChange) ∧ (e'.IsDrop ↔ e.IsDrop)

/-- An entry can be appended by an object that remembers all values. -/
structure AppendReads (now : Int64) (entry : ShvJournalEntry) (j : ShvFileJournal) : Prop where
  positive : 0 < entryTime now entry j.ready
  line : ReadsBack (entryTime now entry j.ready)
    { entry with epochMsec := entryTime now entry j.ready }
  newer : j.ready.needsNewFile = true → ∀ file ∈ j.ready.context.files,
    file < entryTime now entry j.ready
  named : j.ready.needsNewFile = true →
    fileNameToFileMsec (fileMsecToFileName (entryTime now entry j.ready)) =
      .ok (entryTime now entry j.ready)
  notNewer : j.ready.needsNewFile = true → ∀ e ∈ j.entries,
    e.epochMsec ≤ entryTime now entry j.ready
  snapshot : j.ready.needsNewFile = true → ∀ kv ∈ j.snapshot,
    ReadsBack (entryTime now entry j.ready) (snapshotEntry kv.2)

/-- Every path that has a value in the directory has one in memory. -/
structure Remembers (j : ShvFileJournal) : Prop where
  sorted : SortedMap.Sorted j.snapshot
  values : ∀ kv ∈ j.snapshot, kv.2.path = kv.1 ∧ kv.2.IsValueChange
  complete : ∀ path e, IsLastValue j.entries path e → ∃ e', (path, e') ∈ j.snapshot

theorem Remembers.congr {j j' : ShvFileJournal} (h : Remembers j)
    (hsnapshot : j'.snapshot = j.snapshot) (hentries : j'.entries = j.entries) :
    Remembers j' := by
  obtain ⟨hsorted, hvalues, hcomplete⟩ := h
  constructor <;> simpa only [hsnapshot, hentries]

/-! ## the snapshot of a new file -/

/-- The snapshot of a new file has the values in memory. -/
theorem readFile_snapshotText {start : Int64} {snapshot : ShvSnapshot}
    (hvalues : ∀ kv ∈ snapshot, kv.2.path = kv.1 ∧ kv.2.IsValueChange)
    (hreads : ∀ kv ∈ snapshot, ReadsBack start (snapshotEntry kv.2)) :
    ∃ es, readFile (snapshotText start snapshot) = .ok es ∧
      (∀ s ∈ es, s.epochMsec = start ∧ s.IsValueChange) ∧
      ∀ path, (∃ s ∈ es, s.path = path) ↔ ∃ e, (path, e) ∈ snapshot := by
  induction snapshot with
  | nil => exact ⟨[], rfl, nofun, by simp⟩
  | cons kv snapshot ih =>
    obtain ⟨es, hes, htimes, hpaths⟩ := ih (fun x hx => hvalues x (List.mem_cons_of_mem _ hx))
      fun x hx => hreads x (List.mem_cons_of_mem _ hx)
    obtain ⟨hkey, hvalue⟩ := hvalues kv List.mem_cons_self
    obtain ⟨e', he', htime, hpath, -, hchange, -⟩ := hreads kv List.mem_cons_self
    refine ⟨e' :: es, readFile_append (ended_line _ _ _) he' hes, ?_, fun path => ?_⟩
    · intro s hs
      rcases List.mem_cons.mp hs with rfl | hs
      · exact ⟨htime, hchange.mpr hvalue⟩
      · exact htimes s hs
    · have hpath' : e'.path = kv.1 := hpath.trans hkey
      constructor
      · rintro ⟨s, hs, rfl⟩
        rcases List.mem_cons.mp hs with rfl | hs
        · exact ⟨kv.2, by rw [hpath']; exact List.mem_cons_self⟩
        · obtain ⟨e, he⟩ := (hpaths s.path).mp ⟨s, hs, rfl⟩
          exact ⟨e, List.mem_cons_of_mem _ he⟩
      · rintro ⟨e, he⟩
        rcases List.mem_cons.mp he with rfl | he
        · exact ⟨e', List.mem_cons_self, hpath'⟩
        · obtain ⟨s, hs, hs'⟩ := (hpaths path).mpr ⟨e, he⟩
          exact ⟨s, List.mem_cons_of_mem _ hs, hs'⟩

/-- An object that remembers all values can start a file. -/
theorem Remembers.appendOk {j : ShvFileJournal} {logs : List LogFile} (hinv : Inv j logs)
    (h : Remembers j) {now : Int64} {entry : ShvJournalEntry} (hreads : AppendReads now entry j) :
    AppendOk now entry j := by
  obtain ⟨-, -, -, hready, hsnapshot⟩ := hinv.ready
  have hentries : j.ready.entries = j.entries := by
    rw [entries_eq hready.dir, entries_eq hinv.dir]
  obtain ⟨e', he', -, -, hclear, -⟩ := hreads.line
  refine ⟨hreads.positive, ⟨[e'], he', fun x hx => ?_⟩, fun hnew => ?_⟩
  · rwa [List.mem_singleton.mp hx]
  · obtain ⟨es, hes, htimes, hpaths⟩ := readFile_snapshotText h.values (hreads.snapshot hnew)
    refine ⟨hreads.newer hnew, hreads.named hnew, ?_, es, ?_, htimes, fun path e hlast => ?_⟩
    · rw [hentries]
      exact hreads.notNewer hnew
    · rwa [hsnapshot]
    · rw [hentries] at hlast
      exact (hpaths path).mpr (h.complete path e hlast)

/-! ## appending -/

/-- The snapshot of a new file adds no path. -/
theorem Remembers.startedFrom {j j' : ShvFileJournal} (h : Remembers j) {msec : Int64}
    (hstarted : StartedFrom msec j j')
    (hreads : j.needsNewFile = true → ∀ kv ∈ j.snapshot, ReadsBack msec (snapshotEntry kv.2)) :
    Remembers j' := by
  obtain ⟨hsnapshot, hentries | ⟨hnew, hentries⟩⟩ := hstarted
  · exact h.congr hsnapshot hentries
  · obtain ⟨es, hes, -, hpaths⟩ := readFile_snapshotText h.values (hreads hnew)
    rw [textEntries_of_readFile hes] at hentries
    refine ⟨hsnapshot ▸ h.sorted, hsnapshot ▸ h.values, fun path e hlast => ?_⟩
    rw [hsnapshot]
    rw [hentries] at hlast
    rcases survives_append.mp ((@survives_iff _ (path, e)).mpr hlast) with hlast | ⟨hlast, -⟩
    · obtain ⟨earlier, later, rfl, hpath, -⟩ := survives_iff.mp hlast
      exact (hpaths path).mp ⟨e, by simp, hpath⟩
    · exact h.complete path e (survives_iff.mp hlast)

/-- The entry does the same to the snapshot in memory and to the values of the directory. -/
theorem Remembers.left {j j' : ShvFileJournal} (h : Remembers j) {e e' : ShvJournalEntry}
    (hpath : e'.path = e.path) (hvalue : e'.IsValueChange ↔ e.IsValueChange)
    (hdrop : e'.IsDrop ↔ e.IsDrop) (hleft : Left e [e'] j j') : Remembers j' := by
  rcases hleft with ⟨hsnapshot, hentries⟩ | ⟨hadd, deleted, hentries⟩
  · exact h.congr hsnapshot hentries
  · have hmem := replays_addToSnapshot.mem_iff h.sorted hadd
    refine ⟨replays_addToSnapshot.inv h.sorted hadd, fun kv hkv => ?_, fun path x hlast => ?_⟩
    · rcases (hmem kv).mp hkv with ⟨hval, rfl⟩ | ⟨hkv, -⟩
      · exact ⟨rfl, hval⟩
      · exact h.values kv hkv
    · have hwhole : Survives Puts Removes (deleted ++ j'.entries) (path, x) :=
        Survives.of_append (survives_iff.mpr hlast)
      rw [hentries, survives_concat] at hwhole
      rcases hwhole with ⟨hval, heq⟩ | ⟨hlast, hkept⟩
      · obtain ⟨rfl, rfl⟩ := Prod.mk.inj heq
        exact ⟨e, (hmem _).mpr (.inl ⟨hvalue.mp hval, by rw [hpath]⟩)⟩
      · obtain ⟨y, hy⟩ := h.complete path x (survives_iff.mp hlast)
        refine ⟨y, (hmem _).mpr (.inr ⟨hy, fun hremoves => hkept ?_⟩)⟩
        rcases hremoves with ⟨hval, heq⟩ | ⟨hd, hcovers⟩
        · exact .inl ⟨hvalue.mpr hval, heq.trans hpath.symm⟩
        · exact .inr ⟨hdrop.mpr hd, hpath ▸ hcovers⟩

/-- Appending forgets no value. -/
theorem Remembers.append {j : ShvFileJournal} {logs : List LogFile} (hinv : Inv j logs)
    (h : Remembers j) {now : Int64} {entry : ShvJournalEntry} (hreads : AppendReads now entry j) :
    ∃ logs', Inv (j.append now entry) logs' ∧ Remembers (j.append now entry) := by
  obtain ⟨hpositive, ⟨es, -⟩, hnew⟩ := h.appendOk hinv hreads
  obtain ⟨-, -, -, hready, hsnapshot⟩ := hinv.ready
  have hremembers : Remembers j.ready :=
    h.congr hsnapshot (by rw [entries_eq hready.dir, entries_eq hinv.dir])
  obtain ⟨e', he', -, hpath, hclear, hvalue, hdrop⟩ := hreads.line
  obtain ⟨logs', j₁, hinv', hstarted, hleft⟩ := hinv.append hpositive he'
    (fun x hx => by rwa [List.mem_singleton.mp hx]) hnew
  refine ⟨logs', hinv', (hremembers.startedFrom hstarted ?_).left hpath hvalue hdrop hleft⟩
  rw [hsnapshot]
  exact hreads.snapshot

/-! ## runs of one object -/

/-- The steps are appends, and each line that they write is read back. -/
def AppendsRead (j : ShvFileJournal) : List Step → Prop
  | [] => True
  | .append now entry :: steps => AppendReads now entry j ∧ AppendsRead (j.append now entry) steps
  | .restart _ _ :: _ => False

theorem Remembers.stepsOk {j : ShvFileJournal} {logs : List LogFile} (hinv : Inv j logs)
    (h : Remembers j) {steps : List Step} (hsteps : AppendsRead j steps) : StepsOk j steps := by
  induction steps generalizing j logs with
  | nil => trivial
  | cons s steps ih =>
    cases s with
    | append now entry =>
      obtain ⟨logs', hinv', h'⟩ := h.append hinv hsteps.1
      exact ⟨h.appendOk hinv hsteps.1, ih hinv' h' hsteps.2⟩
    | restart fileSizeLimit journalSizeLimit => exact hsteps.elim

/-- Without a restart the newest matching file is enough. -/
theorem rows_getLog_of_appends (fileSizeLimit journalSizeLimit : Int) {steps : List Step}
    (hsteps : AppendsRead (create [] fileSizeLimit journalSizeLimit) steps)
    {params : ShvGetLogParams}
    (hparams : ParamsOk params ((create [] fileSizeLimit journalSizeLimit).run steps).ready)
    (now : RpcDateTime) (ignoreRecordCountLimit : Bool) :
    (((create [] fileSizeLimit journalSizeLimit).run steps).getLog params now
        ignoreRecordCountLimit).map GetLogResult.rows =
      (((create [] fileSizeLimit journalSizeLimit).run steps).getLogOfAllFiles params now
        ignoreRecordCountLimit).map GetLogResult.rows := by
  have hinv := inv_create [] chained_nil fileSizeLimit journalSizeLimit
  have hremembers : Remembers (create [] fileSizeLimit journalSizeLimit) := by
    refine ⟨SortedMap.sorted_nil, nofun, ?_⟩
    rintro path e ⟨earlier, later, heq, -⟩
    exact absurd heq (by simp [entries, create])
  obtain ⟨logs, h⟩ := hinv.run (hremembers.stepsOk hinv hsteps)
  exact h.rows_getLog hparams now ignoreRecordCountLimit

end LibShv.ShvFileJournal
