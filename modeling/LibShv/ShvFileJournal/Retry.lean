import LibShv.GetLog.Checkpoint
import LibShv.ShvFileJournal.Files
import LibShv.ShvJournalFile.RoundTrip

/-!
# LibShv.ShvFileJournal.Retry

`ShvFileJournal::append` with the exceptions of its first attempt. It is to read the
directory again then, because a card may have been replaced, and to append the entry; but
`createJournalDirIfNotExist` takes it for a failure that there is nothing to create. So the
second attempt is made when the directory is missing, and not when it is there.

Here the directory may be missing on the disk, and the file that the context names last may be
missing in it. Each attempt looks at the clock once.
-/

namespace LibShv

open ShvJournalFileWriter ShvJournalFileReader

/-- `ShvFileJournal`, and the disk it is on: the files of its directory, if there is one, and
whether one can be made. -/
structure JournalOnDisk where
  disk : Option Directory
  creatable : Bool
  journalDirExists : Bool
  snapshot : ShvSnapshot
  context : JournalContext
  fileSizeLimit : Int
  journalSizeLimit : Int

namespace JournalOnDisk

/-! ## the journal on its directory -/

/-- What an exception says, and the journal as it is left. -/
abbrev Failed := String × JournalOnDisk

/-- The journal on the files that there are. -/
def journal (d : JournalOnDisk) : ShvFileJournal where
  dir := d.disk.getD []
  snapshot := d.snapshot
  context := d.context
  fileSizeLimit := d.fileSizeLimit
  journalSizeLimit := d.journalSizeLimit

/-- The journal after a call; where there is no directory there are no files. -/
def withJournal (d : JournalOnDisk) (j : ShvFileJournal) : JournalOnDisk :=
  { d with
    disk := d.disk.map fun _ => j.dir
    snapshot := j.snapshot
    context := j.context }

/-- A call that finds the directory there. -/
def onDir (d : JournalOnDisk) (r : Except ShvFileJournal.Thrown ShvFileJournal) :
    Except Failed JournalOnDisk :=
  match r with
  | .ok j => .ok (d.withJournal j)
  | .error (msg, j) => .error (msg, d.withJournal j)

/-- `JournalContext::isConsistent`. -/
def isConsistent (d : JournalOnDisk) : Bool :=
  d.journalDirExists && decide (0 ≤ d.context.journalSize)

/-- `mkpath`: `create_directories` tells whether a directory was made. -/
def mkpath (d : JournalOnDisk) : Bool × JournalOnDisk :=
  match d.disk with
  | some _ => (false, d)
  | none => if d.creatable then (true, { d with disk := some [] }) else (false, d)

/-- `createJournalDirIfNotExist`. -/
def createJournalDirIfNotExist (d : JournalOnDisk) : Except Failed JournalOnDisk :=
  let (made, d) := d.mkpath
  if made then .ok { d with journalDirExists := true }
  else .error ("Journal dir do not exists and cannot be created",
    { d with journalDirExists := false })

/-! ## the context -/

/-- `updateJournalStatus`. -/
def updateJournalStatus (d : JournalOnDisk) : Except Failed JournalOnDisk :=
  match d.disk with
  | some _ => d.onDir d.journal.updateJournalStatus
  | none => .error ("Cannot read content of dir", { d with context := { d.context with
      files := []
      journalSize := 0
      lastFileSize := 0 } })

/-- The directory is made if it is not known to be there. -/
def ensureJournalDir (d : JournalOnDisk) : Except Failed JournalOnDisk :=
  if d.journalDirExists then .ok d else d.createJournalDirIfNotExist

/-- The context read again. -/
def readAgain (d : JournalOnDisk) : Except Failed JournalOnDisk :=
  { d with
    context := { d.context with recentTimeStamp := 0 }
    journalDirExists := d.disk.isSome }.ensureJournalDir.bind updateJournalStatus

def checkConsistent (d : JournalOnDisk) : Except Failed JournalOnDisk :=
  if d.isConsistent then .ok d
  else .error ("Journal cannot be brought to consistent state.", d)

/-- `checkJournalContext_helper`. -/
def checkJournalContext_helper (force : Bool) (d : JournalOnDisk) :
    Except Failed JournalOnDisk :=
  if !d.isConsistent || force then d.readAgain.bind checkConsistent else d.checkConsistent

/-- `checkRecentTimeStamp`. The last file has to be there. -/
def checkRecentTimeStamp (d : JournalOnDisk) : Except Failed JournalOnDisk :=
  if 0 < d.context.recentTimeStamp then .ok d
  else
    match d.context.files.getLast? with
    | none => .ok { d with context := { d.context with recentTimeStamp := 0 } }
    | some last_file_start_msec =>
      match d.journal.dir.find? (fileMsecToFileName last_file_start_msec) with
      | none => .error ("Cannot open file for reading.", d)
      | some text =>
        let recentTimeStamp :=
          max (ShvFileJournal.findLastEntryDateTime text last_file_start_msec) 0
        .ok { d with context := { d.context with recentTimeStamp } }

/-! ## appending -/

/-- `createNewLogFile`. -/
def createNewLogFile (now journal_file_start_msec : Int64) (d : JournalOnDisk) :
    Except Failed JournalOnDisk :=
  match d.journal.createNewLogFile now journal_file_start_msec with
  | .error (msg, j) => .error (msg, d.withJournal j)
  | .ok j =>
    match d.disk with
    | some _ => .ok (d.withJournal j)
    | none => .error ("Cannot open file for writing", d)

/-- The file that an entry goes to, by its start. -/
def logFile (now msec : Int64) (d : JournalOnDisk) : Except Failed (JournalOnDisk × Int64) :=
  if d.journal.needsNewFile then (d.createNewLogFile now msec).map fun d => (d, msec)
  else .ok (d, d.context.files.getLast?.getD 0)

/-- The end of `appendThrow`. The entry goes to the snapshot before the file is opened. -/
def writeEntry (now start : Int64) (e : ShvJournalEntry) (d : JournalOnDisk) :
    Except Failed JournalOnDisk :=
  match d.disk with
  | some _ => d.onDir (d.journal.writeEntry now start e)
  | none =>
    match addToSnapshot d.snapshot e with
    | .error msg => .error (msg, d)
    | .ok snapshot => .error ("Cannot open file for writing", { d with snapshot })

/-- `appendThrow` in a file that starts at a time. -/
def appendTo (now start : Int64) (e : ShvJournalEntry) (d : JournalOnDisk) :
    Except Failed JournalOnDisk :=
  if ∃ last ∈ d.context.files.getLast?, start < last then .error ("Journal context corrupted!", d)
  else d.writeEntry now start e

/-- `appendThrow` behind the checks. -/
def appendChecked (now : Int64) (entry : ShvJournalEntry) (d : JournalOnDisk) :
    Except Failed JournalOnDisk :=
  let e := { entry with
    epochMsec := max (ShvFileJournal.timeOr now entry.epochMsec) d.context.recentTimeStamp }
  (d.logFile now e.epochMsec).bind fun r => r.1.appendTo now r.2 e

/-- `appendThrow`. -/
def appendThrow (now : Int64) (entry : ShvJournalEntry) (d : JournalOnDisk) :
    Except Failed JournalOnDisk :=
  (d.checkJournalContext_helper false).bind fun d =>
    d.checkRecentTimeStamp.bind fun d => d.appendChecked now entry

/-- The second `try` of `append`. -/
def appendAgain (now : Int64) (entry : ShvJournalEntry) (d : JournalOnDisk) :
    Except Failed JournalOnDisk :=
  d.createJournalDirIfNotExist.bind fun d =>
    (d.checkJournalContext_helper true).bind fun d => d.appendThrow now entry

/-- What is left of a call whose exceptions are caught. -/
def left (r : Except Failed JournalOnDisk) : JournalOnDisk :=
  match r with
  | .ok d => d
  | .error (_, d) => d

/-- `append`, with the time at the first attempt and at the second. -/
def append (now now' : Int64) (entry : ShvJournalEntry) (d : JournalOnDisk) : JournalOnDisk :=
  match d.appendThrow now entry with
  | .ok d => d
  | .error (_, d) => left (d.appendAgain now' entry)

/-! ## a directory that is there -/

section
variable {d : JournalOnDisk}

/-- The directory is there and the context knows it, and the last file can be opened if it is
read. -/
structure There (d : JournalOnDisk) : Prop where
  disk : d.disk.isSome = true
  consistent : d.isConsistent = true
  lastFile : 0 < d.context.recentTimeStamp ∨ ∀ last ∈ d.context.files.getLast?,
    (d.journal.dir.find? (fileMsecToFileName last)).isSome = true

/-- The limits of the journal are those it has on the disk. -/
def SameLimits (d : JournalOnDisk) (j : ShvFileJournal) : Prop :=
  j.fileSizeLimit = d.fileSizeLimit ∧ j.journalSizeLimit = d.journalSizeLimit

theorem withJournal_journal (d : JournalOnDisk) : d.withJournal d.journal = d := by
  cases d with
  | mk disk => cases disk <;> rfl

theorem journal_withJournal {j : ShvFileJournal} (hdisk : d.disk.isSome = true)
    (hlimits : d.SameLimits j) : (d.withJournal j).journal = j := by
  obtain ⟨dir, hdir⟩ := Option.isSome_iff_exists.mp hdisk
  rw [journal, withJournal, hdir]
  simp only [Option.map_some, Option.getD_some, ← hlimits.1, ← hlimits.2]

theorem onDir_withJournal (d : JournalOnDisk) (j : ShvFileJournal)
    (r : Except ShvFileJournal.Thrown ShvFileJournal) : (d.withJournal j).onDir r = d.onDir r := by
  have htwice : ∀ j', (d.withJournal j).withJournal j' = d.withJournal j' := by
    intro j'
    rw [withJournal, withJournal, withJournal, Option.map_map]
    rfl
  cases r with
  | ok j' => rw [onDir, onDir, htwice]
  | error failed => rw [onDir, onDir, htwice]

theorem There.checkRecentTimeStamp (h : d.There) :
    d.checkRecentTimeStamp = .ok (d.withJournal d.journal.checkRecentTimeStamp) := by
  obtain ⟨dir, hdir⟩ := Option.isSome_iff_exists.mp h.disk
  have hctx : d.journal.context = d.context := rfl
  rw [JournalOnDisk.checkRecentTimeStamp, ShvFileJournal.checkRecentTimeStamp, hctx]
  by_cases hpos : 0 < d.context.recentTimeStamp
  · rw [if_pos hpos, if_pos hpos, withJournal_journal]
  · rw [if_neg hpos, if_neg hpos]
    cases hfiles : d.context.files.getLast? with
    | none =>
      simp only [withJournal, journal, hdir]
      rfl
    | some last =>
      obtain ⟨text, htext⟩ := Option.isSome_iff_exists.mp (h.lastFile.resolve_left hpos last hfiles)
      rw [journal, hdir] at htext
      simp only [withJournal, journal, hdir, htext]
      rfl

theorem sameLimits_checkRecentTimeStamp (d : JournalOnDisk) :
    d.SameLimits d.journal.checkRecentTimeStamp := by
  rw [ShvFileJournal.checkRecentTimeStamp]
  split
  · exact ⟨rfl, rfl⟩
  · exact ⟨rfl, rfl⟩

theorem sameLimits_createNewLogFile {j : ShvFileJournal} {now start : Int64}
    (h : d.journal.createNewLogFile now start = .ok j) : d.SameLimits j := by
  rw [ShvFileJournal.createNewLogFile] at h
  simp only at h
  split at h
  · contradiction
  · obtain rfl := Except.ok.inj h
    exact ⟨rfl, rfl⟩

theorem appendTo_withJournal {j : ShvFileJournal} (hdisk : d.disk.isSome = true)
    (hlimits : d.SameLimits j) (now start : Int64) (e : ShvJournalEntry) :
    (d.withJournal j).appendTo now start e = d.onDir
      (if ∃ last ∈ j.context.files.getLast?, start < last then
        .error ("Journal context corrupted!", j) else j.writeEntry now start e) := by
  obtain ⟨dir, hdir⟩ := Option.isSome_iff_exists.mp hdisk
  have hcontext : (d.withJournal j).context = j.context := rfl
  have hthere : (d.withJournal j).disk = some j.dir := by
    rw [withJournal, hdir, Option.map_some]
  rw [appendTo, hcontext]
  split
  · rfl
  · rw [JournalOnDisk.writeEntry, hthere]
    simp only
    rw [journal_withJournal hdisk hlimits, onDir_withJournal]

/-- An entry goes to the file that was found for it. -/
def onLogFile (now : Int64) (e : ShvJournalEntry) (d : JournalOnDisk)
    (r : Except ShvFileJournal.Thrown (ShvFileJournal × Int64)) : Except Failed JournalOnDisk :=
  match r with
  | .error (msg, j) => .error (msg, d.withJournal j)
  | .ok (j, start) => d.onDir
      (if ∃ last ∈ j.context.files.getLast?, start < last then
        .error ("Journal context corrupted!", j) else j.writeEntry now start e)

/-- The entry with the time that it gets. -/
def timed (now : Int64) (entry : ShvJournalEntry) (context : JournalContext) : ShvJournalEntry :=
  { entry with
    epochMsec := max (ShvFileJournal.timeOr now entry.epochMsec) context.recentTimeStamp }

theorem appendChecked_of_there (hdisk : d.disk.isSome = true) (now : Int64)
    (entry : ShvJournalEntry) :
    d.appendChecked now entry = d.onLogFile now (timed now entry d.context)
      (d.journal.logFile now (timed now entry d.context).epochMsec) := by
  obtain ⟨dir, hdir⟩ := Option.isSome_iff_exists.mp hdisk
  rw [appendChecked, timed]
  simp only
  rw [JournalOnDisk.logFile, ShvFileJournal.logFile]
  by_cases hnew : d.journal.needsNewFile = true
  · rw [if_pos hnew, if_pos hnew, JournalOnDisk.createNewLogFile, hdir]
    cases hr : d.journal.createNewLogFile now (max (ShvFileJournal.timeOr now entry.epochMsec)
        d.context.recentTimeStamp) with
    | error failed => rfl
    | ok j => exact appendTo_withJournal hdisk (sameLimits_createNewLogFile hr) now _ _
  · rw [if_neg hnew, if_neg hnew]
    have hself := appendTo_withJournal (j := d.journal) hdisk ⟨rfl, rfl⟩ now
      (d.context.files.getLast?.getD 0) { entry with
        epochMsec := max (ShvFileJournal.timeOr now entry.epochMsec) d.context.recentTimeStamp }
    rw [withJournal_journal] at hself
    exact hself

/-- Where the directory is there an attempt is the one on its files. -/
theorem There.appendThrow (h : d.There) (now : Int64) (entry : ShvJournalEntry) :
    d.appendThrow now entry = d.onDir (d.journal.appendThrow now entry) := by
  have hsize : 0 ≤ d.journal.context.journalSize := by
    have hconsistent := h.consistent
    rw [isConsistent, Bool.and_eq_true, decide_eq_true_eq] at hconsistent
    exact hconsistent.2
  have hcontext : d.journal.checkJournalContext = .ok d.journal := by
    rw [ShvFileJournal.checkJournalContext, if_pos hsize]
  have hhelper : d.checkJournalContext_helper false = .ok d := by
    rw [checkJournalContext_helper, h.consistent, Bool.not_true, Bool.or_self,
      if_neg Bool.false_ne_true, checkConsistent, if_pos h.consistent]
  have hlimits := sameLimits_checkRecentTimeStamp d
  have hdisk : (d.withJournal d.journal.checkRecentTimeStamp).disk.isSome = true := by
    rw [← h.disk]
    exact Option.isSome_map
  rw [JournalOnDisk.appendThrow, hhelper, ShvFileJournal.appendThrow, hcontext]
  simp only [Except.bind, h.checkRecentTimeStamp, bind]
  rw [appendChecked_of_there hdisk, journal_withJournal h.disk hlimits]
  simp only [timed]
  have hrecent : (d.withJournal d.journal.checkRecentTimeStamp).context =
    d.journal.checkRecentTimeStamp.context := rfl
  rw [hrecent]
  cases hfile : d.journal.checkRecentTimeStamp.logFile now (max (ShvFileJournal.timeOr now
      entry.epochMsec) d.journal.checkRecentTimeStamp.context.recentTimeStamp) with
  | error failed =>
    rw [onLogFile, ← onDir_withJournal d d.journal.checkRecentTimeStamp]
    rfl
  | ok r =>
    simp only [onLogFile, onDir_withJournal]
    by_cases hcorrupted : ∃ last ∈ r.1.context.files.getLast?, r.2 < last
    · rw [if_pos hcorrupted, if_pos hcorrupted]
      rfl
    · rw [if_neg hcorrupted, if_neg hcorrupted]

end

/-! ## what an attempt does to the disk -/

/-- However the call ends, the journal is left as said. -/
def Leaves {α : Type} (P : JournalOnDisk → Prop) (of : α → JournalOnDisk)
    (r : Except Failed α) : Prop :=
  match r with
  | .ok a => P (of a)
  | .error (_, d) => P d

theorem Leaves.bind {α : Type} {P : JournalOnDisk → Prop} {of : α → JournalOnDisk}
    {r : Except Failed α} {f : α → Except Failed JournalOnDisk} (h : Leaves P of r)
    (hf : ∀ a, P (of a) → Leaves P id (f a)) : Leaves P id (r.bind f) := by
  cases r with
  | ok a => exact hf a h
  | error failed => exact h

/-- The directory is there, or it is not. -/
def DirIs (there creatable : Bool) (d : JournalOnDisk) : Prop :=
  d.disk.isSome = there ∧ d.creatable = creatable

variable {d d₁ : JournalOnDisk} {there creatable : Bool} {msg : String}

theorem DirIs.withJournal (h : DirIs there creatable d) (j : ShvFileJournal) :
    DirIs there creatable (d.withJournal j) := by
  refine ⟨?_, h.2⟩
  rw [← h.1]
  exact Option.isSome_map

theorem DirIs.onDir (h : DirIs there creatable d)
    (r : Except ShvFileJournal.Thrown ShvFileJournal) :
    Leaves (DirIs there creatable) id (d.onDir r) := by
  cases r with
  | ok j => exact h.withJournal j
  | error failed => exact h.withJournal failed.2

theorem DirIs.updateJournalStatus (h : DirIs there creatable d) :
    Leaves (DirIs there creatable) id d.updateJournalStatus := by
  rw [JournalOnDisk.updateJournalStatus]
  split
  · exact h.onDir _
  · exact h

theorem DirIs.checkConsistent (h : DirIs there creatable d) :
    Leaves (DirIs there creatable) id d.checkConsistent := by
  rw [JournalOnDisk.checkConsistent]
  split
  · exact h
  · exact h

theorem DirIs.checkRecentTimeStamp (h : DirIs there creatable d) :
    Leaves (DirIs there creatable) id d.checkRecentTimeStamp := by
  rw [JournalOnDisk.checkRecentTimeStamp]
  split
  · exact h
  · split
    · exact h
    · split
      · exact h
      · exact h

theorem DirIs.createNewLogFile (h : DirIs there creatable d) (now msec : Int64) :
    Leaves (DirIs there creatable) id (d.createNewLogFile now msec) := by
  rw [JournalOnDisk.createNewLogFile]
  split
  · exact h.withJournal _
  · split
    · exact h.withJournal _
    · exact h

theorem DirIs.logFile (h : DirIs there creatable d) (now msec : Int64) :
    Leaves (DirIs there creatable) (·.1) (d.logFile now msec) := by
  rw [JournalOnDisk.logFile]
  split
  · have hnew := h.createNewLogFile now msec
    cases hr : d.createNewLogFile now msec with
    | ok d' => rw [hr] at hnew; exact hnew
    | error failed => rw [hr] at hnew; exact hnew
  · exact h

theorem DirIs.writeEntry (h : DirIs there creatable d) (now start : Int64) (e : ShvJournalEntry) :
    Leaves (DirIs there creatable) id (d.writeEntry now start e) := by
  rw [JournalOnDisk.writeEntry]
  split
  · exact h.onDir _
  · split
    · exact h
    · exact h

theorem DirIs.appendChecked (h : DirIs there creatable d) (now : Int64)
    (entry : ShvJournalEntry) :
    Leaves (DirIs there creatable) id (d.appendChecked now entry) := by
  rw [JournalOnDisk.appendChecked]
  refine (h.logFile now _).bind fun r hr => ?_
  rw [appendTo]
  split
  · exact hr
  · exact hr.writeEntry now _ _

/-- Behind the first check no attempt makes a directory. -/
theorem DirIs.appendRest (h : DirIs there creatable d) (now : Int64) (entry : ShvJournalEntry) :
    Leaves (DirIs there creatable) id
      (d.checkRecentTimeStamp.bind fun d => d.appendChecked now entry) :=
  h.checkRecentTimeStamp.bind fun _ h' => h'.appendChecked now entry

/-- A directory that is there stays. -/
theorem DirIs.readAgain (h : DirIs true creatable d) :
    Leaves (DirIs true creatable) id d.readAgain := by
  rw [JournalOnDisk.readAgain, ensureJournalDir, if_pos h.1]
  exact DirIs.updateJournalStatus h

theorem DirIs.appendThrow (h : DirIs true creatable d) (now : Int64) (entry : ShvJournalEntry) :
    Leaves (DirIs true creatable) id (d.appendThrow now entry) := by
  rw [JournalOnDisk.appendThrow]
  refine Leaves.bind ?_ fun _ h' => h'.appendRest now entry
  rw [checkJournalContext_helper]
  split
  · exact h.readAgain.bind fun _ h' => h'.checkConsistent
  · exact h.checkConsistent

/-- The first attempt makes a missing directory, if it can, when the context is not
consistent. -/
theorem appendThrow_of_not_isConsistent (hdisk : d.disk = none) (h : d.isConsistent = false)
    (now : Int64) (entry : ShvJournalEntry) :
    Leaves (DirIs d.creatable d.creatable) id (d.appendThrow now entry) := by
  rw [JournalOnDisk.appendThrow, checkJournalContext_helper, h, Bool.not_false, Bool.true_or,
    if_pos rfl]
  refine Leaves.bind (Leaves.bind ?_ fun _ h' => h'.checkConsistent)
    fun _ h' => h'.appendRest now entry
  rw [JournalOnDisk.readAgain, ensureJournalDir, hdisk, Option.isSome_none,
    if_neg Bool.false_ne_true, createJournalDirIfNotExist, mkpath]
  cases hcreatable : d.creatable with
  | true =>
    simp only [if_true, Except.bind]
    exact DirIs.updateJournalStatus ⟨rfl, rfl⟩
  | false => exact ⟨rfl, rfl⟩

/-- With a consistent context a missing directory stays missing. -/
theorem appendThrow_of_isConsistent (h : DirIs there creatable d) (hcons : d.isConsistent = true)
    (now : Int64) (entry : ShvJournalEntry) :
    Leaves (DirIs there creatable) id (d.appendThrow now entry) := by
  rw [JournalOnDisk.appendThrow, checkJournalContext_helper, hcons, Bool.not_true, Bool.or_self,
    if_neg Bool.false_ne_true]
  exact h.checkConsistent.bind fun _ h' => h'.appendRest now entry

/-- After a failed attempt the directory is missing, and can be made, exactly when it was
missing before, could be made, and the context said that it was there. -/
theorem missing_after_iff {now : Int64} {entry : ShvJournalEntry}
    (hfirst : d.appendThrow now entry = .error (msg, d₁)) :
    (d₁.disk = none ∧ d₁.creatable = true) ↔
      d.disk = none ∧ d.creatable = true ∧ d.isConsistent = true := by
  cases hdisk : d.disk with
  | some dir =>
    have h : DirIs true d.creatable d := ⟨by rw [hdisk]; rfl, rfl⟩
    have hleft := h.appendThrow now entry
    rw [hfirst] at hleft
    refine iff_of_false (fun hnone => ?_) (by simp)
    rw [Leaves, DirIs, hnone.1] at hleft
    exact absurd hleft.1 Bool.false_ne_true
  | none =>
    cases hcons : d.isConsistent with
    | true =>
      have h : DirIs false d.creatable d := ⟨by rw [hdisk]; rfl, rfl⟩
      have hleft := appendThrow_of_isConsistent h hcons now entry
      rw [hfirst] at hleft
      rw [hleft.2]
      have hnone : d₁.disk = none :=
        Option.isNone_iff_eq_none.mp (Option.isSome_eq_false_iff.mp hleft.1)
      simp [hnone]
    | false =>
      have hleft := appendThrow_of_not_isConsistent hdisk hcons now entry
      rw [hfirst] at hleft
      refine iff_of_false (fun hnone => ?_) (by simp)
      have hthere := hleft.1.trans hleft.2.symm
      rw [hnone.1, hnone.2] at hthere
      exact Bool.false_ne_true hthere

/-! ## the entry in the newest file -/

/-- No file of the directory is newer. -/
def IsNewest (dir : Directory) (fn : Bytes) : Prop :=
  ∀ file ∈ dir, ∀ msec msec', fileNameToFileMsec file.1 = .ok msec →
    fileNameToFileMsec fn = .ok msec' → msec ≤ msec'

/-- The entry is once more in the newest file: its line is behind what the file had before, or
behind the snapshot that a new file starts with. -/
def AppendedTo (entry : ShvJournalEntry) (d d' : JournalOnDisk) : Prop :=
  ∃ start msec orig_time, IsNewest d'.journal.dir (fileMsecToFileName start) ∧
    d'.journal.dir.find? (fileMsecToFileName start) =
      some ((d.journal.dir.find? (fileMsecToFileName start)).getD (snapshotText start d.snapshot) ++
        line msec orig_time entry)

theorem exists_addToSnapshot_iff {snapshot : ShvSnapshot} {e : ShvJournalEntry} :
    (∃ snapshot', addToSnapshot snapshot e = .ok snapshot') ↔ e.Clear := by
  refine ⟨fun h => ?_, fun h => h.addToSnapshot snapshot⟩
  by_cases hdomain : e.domain ≠ ShvJournalEntry.DOMAIN_VAL_CHANGE
  · exact Or.inl hdomain
  · refine Or.inr ?_
    obtain ⟨snapshot', h⟩ := h
    rw [addToSnapshot, if_neg hdomain] at h
    cases hdrop : e.value.isNodeDrop with
    | error msg => simp [hdrop, bind, Except.bind] at h
    | ok drop => exact ⟨drop, rfl⟩

/-! ### lines -/

theorem count_timeText (msec : Int64) : (timeText msec).count RECORD_SEPARATOR = 0 := by
  refine List.count_eq_zero.mpr fun hmem => ?_
  exact (plain_timeText msec _ hmem).2.2 rfl

/-- The time of a line does not change the number of separators in it. -/
theorem count_line (msec msec' : Int64) (e : ShvJournalEntry) :
    (line msec msec e).count RECORD_SEPARATOR = (line msec' msec' e).count RECORD_SEPARATOR := by
  rw [line, line, if_neg (not_not.mpr rfl), if_neg (not_not.mpr rfl), List.count_append,
    List.count_append, count_timeText, count_timeText]

theorem count_line_pos (msec orig_time : Int64) (e : ShvJournalEntry) :
    0 < (line msec orig_time e).count RECORD_SEPARATOR := by
  rw [List.count_pos_iff, line]
  simp only [List.mem_append, List.mem_cons, true_or, or_true]

theorem count_snapshotText (msec msec' : Int64) (snapshot : ShvSnapshot) :
    (snapshotText msec snapshot).count RECORD_SEPARATOR =
      (snapshotText msec' snapshot).count RECORD_SEPARATOR := by
  rw [snapshotText, snapshotText]
  induction snapshot with
  | nil => rw [List.flatMap_nil, List.flatMap_nil]
  | cons kv snapshot ih =>
    rw [List.flatMap_cons, List.flatMap_cons, List.count_append, List.count_append]
    exact congrArg₂ (· + ·) (count_line msec msec' _) ih

/-- A file that starts with the snapshot alone does not have the entry. -/
theorem snapshotText_ne (msec start msec' orig_time : Int64) (snapshot : ShvSnapshot)
    (e : ShvJournalEntry) :
    snapshotText msec snapshot ≠ snapshotText start snapshot ++ line msec' orig_time e := by
  intro heq
  have hcount := congrArg (List.count RECORD_SEPARATOR) heq
  rw [List.count_append, count_snapshotText msec start] at hcount
  have hpos := count_line_pos msec' orig_time e
  omega

/-! ## the second attempt -/

theorem appendAgain_of_there {dir : Directory} (hdisk : d.disk = some dir) (now : Int64)
    (entry : ShvJournalEntry) :
    left (d.appendAgain now entry) = { d with journalDirExists := false } := by
  rw [appendAgain, createJournalDirIfNotExist, mkpath, hdisk]
  simp only [Bool.false_eq_true, if_false, Except.bind, left, hdisk]

theorem appendAgain_of_not_creatable (hdisk : d.disk = none) (hcreatable : d.creatable = false)
    (now : Int64) (entry : ShvJournalEntry) :
    left (d.appendAgain now entry) = { d with journalDirExists := false } := by
  rw [appendAgain, createJournalDirIfNotExist, mkpath, hdisk]
  simp only [hcreatable, Bool.false_eq_true, if_false, Except.bind, left, hdisk]

/-- The journal on a directory that has just been made. -/
def onNewDir (d : JournalOnDisk) : JournalOnDisk :=
  { d with
    disk := some []
    journalDirExists := true
    context := ⟨[], 0, 0, 0⟩ }

theorem appendAgain_of_missing (hdisk : d.disk = none) (hcreatable : d.creatable = true)
    (now : Int64) (entry : ShvJournalEntry) :
    d.appendAgain now entry = d.onNewDir.appendChecked now entry := by
  have hcreate : d.createJournalDirIfNotExist =
      .ok { d with
        disk := some []
        journalDirExists := true } := by
    rw [createJournalDirIfNotExist, mkpath, hdisk]
    simp only [hcreatable, if_true]
  have hforce : checkJournalContext_helper true { d with
      disk := some []
      journalDirExists := true } = .ok d.onNewDir := by
    rw [checkJournalContext_helper, Bool.or_true, if_pos rfl]
    rfl
  rw [appendAgain, hcreate]
  simp only [Except.bind]
  rw [hforce]
  rfl

/-- The time that an entry gets in a journal without files. -/
def newTime (now : Int64) (entry : ShvJournalEntry) : Int64 :=
  max (ShvFileJournal.timeOr now entry.epochMsec) 0

theorem newTime_of_neg {now : Int64} {entry : ShvJournalEntry} (h : entry.epochMsec < 0) :
    newTime now entry = 0 := by
  rw [newTime, ShvFileJournal.timeOr, if_neg (Int64.ne_of_lt h)]
  show (if entry.epochMsec ≤ 0 then 0 else entry.epochMsec) = 0
  rw [if_pos (Int64.le_of_lt h)]

theorem newTime_pos {now : Int64} (hclock : 0 < now) {entry : ShvJournalEntry}
    (h : 0 ≤ entry.epochMsec) : 0 < newTime now entry := by
  have hpos : 0 < ShvFileJournal.timeOr now entry.epochMsec := by
    rw [ShvFileJournal.timeOr]
    split
    · exact hclock
    · next hne => exact Int64.lt_iff_le_and_ne.mpr ⟨h, Ne.symm hne⟩
  rw [newTime, ShvFileJournal.max_eq_left_of_le (Int64.le_of_lt hpos)]
  exact hpos

/-- An entry before 1970 starts a file at the time of the clock, which is newer than the start it
is to have. -/
theorem disk_appendChecked_of_neg {now : Int64} (hclock : 0 < now) {entry : ShvJournalEntry}
    (h : entry.epochMsec < 0) :
    (left (d.onNewDir.appendChecked now entry)).disk =
      some [(fileMsecToFileName now, snapshotText now d.snapshot)] := by
  have htime : max (ShvFileJournal.timeOr now entry.epochMsec)
      d.onNewDir.context.recentTimeStamp = 0 := newTime_of_neg h
  have hlog : d.onNewDir.logFile now 0 = .ok ({ d.onNewDir with
      disk := some [(fileMsecToFileName now, snapshotText now d.snapshot)]
      context := ⟨[now], 0, 0, now⟩ }, 0) := by
    have hnew : d.onNewDir.journal.createNewLogFile now 0 = .ok { d.onNewDir.journal with
        dir := [(fileMsecToFileName now, snapshotText now d.snapshot)]
        context := ⟨[now], 0, 0, now⟩ } := by
      rw [ShvFileJournal.createNewLogFile, if_neg fun h => ?_]
      · rfl
      · obtain ⟨-, last, hlast, -⟩ := h
        contradiction
    rw [logFile, createNewLogFile, hnew]
    rfl
  rw [appendChecked, htime, hlog]
  simp only [Except.bind]
  rw [appendTo, if_pos ⟨now, rfl, hclock⟩]
  rfl

/-- The journal with a file that starts with the snapshot. -/
def onNewFile (d : JournalOnDisk) (start : Int64) : JournalOnDisk :=
  { d.onNewDir with
    disk := some [(fileMsecToFileName start, snapshotText start d.snapshot)]
    context := ⟨[start], 0, 0, start⟩ }

theorem appendChecked_of_pos {now : Int64} (hclock : 0 < now) {entry : ShvJournalEntry}
    (h : 0 ≤ entry.epochMsec) :
    d.onNewDir.appendChecked now entry = (d.onNewFile (newTime now entry)).writeEntry now
      (newTime now entry) { entry with epochMsec := newTime now entry } := by
  have htime : max (ShvFileJournal.timeOr now entry.epochMsec)
      d.onNewDir.context.recentTimeStamp = newTime now entry := rfl
  have hlog : d.onNewDir.logFile now (newTime now entry) =
      .ok (d.onNewFile (newTime now entry), newTime now entry) := by
    rw [logFile, createNewLogFile,
      ShvFileJournal.createNewLogFile_of_pos now (newTime_pos hclock h)]
    rfl
  rw [appendChecked, htime, hlog]
  simp only [Except.bind]
  rw [appendTo, if_neg ?_]
  rintro ⟨last, hlast, hlt⟩
  obtain rfl := Option.some.inj hlast
  exact Int64.lt_irrefl hlt

theorem disk_appendChecked_of_not_clear {now : Int64} (hclock : 0 < now)
    {entry : ShvJournalEntry} (h : 0 ≤ entry.epochMsec) (hclear : ¬entry.Clear) :
    (left (d.onNewDir.appendChecked now entry)).disk =
      some [(fileMsecToFileName (newTime now entry),
        snapshotText (newTime now entry) d.snapshot)] := by
  rw [appendChecked_of_pos hclock h]
  have hdisk : (d.onNewFile (newTime now entry)).disk = some _ := rfl
  rw [writeEntry, hdisk]
  simp only
  rw [ShvFileJournal.writeEntry]
  cases hadd : addToSnapshot (d.onNewFile (newTime now entry)).journal.snapshot
      { entry with epochMsec := newTime now entry } with
  | ok snapshot => exact absurd (exists_addToSnapshot_iff.mp ⟨snapshot, hadd⟩) hclear
  | error msg => rfl

/-! ### the only file -/

/-- The directory that a call leaves. -/
def dirLeft (r : Except ShvFileJournal.Thrown ShvFileJournal) : Directory :=
  match r with
  | .ok j => j.dir
  | .error (_, j) => j.dir

theorem disk_left_onDir (hdisk : d.disk.isSome = true)
    (r : Except ShvFileJournal.Thrown ShvFileJournal) :
    (left (d.onDir r)).disk = some (dirLeft r) := by
  obtain ⟨dir, hdir⟩ := Option.isSome_iff_exists.mp hdisk
  cases r with
  | ok j => rw [onDir, left, withJournal, hdir]; rfl
  | error failed => rw [onDir, left, withJournal, hdir]; rfl

theorem dirLeft_updateJournalStatus (j : ShvFileJournal) :
    dirLeft j.updateJournalStatus = j.dir := by
  rw [ShvFileJournal.updateJournalStatus]
  split
  · rfl
  · rfl

theorem files_of_updateJournalStatus {j j' : ShvFileJournal} {file : Bytes × Bytes}
    (hdir : j.dir = [file]) (h : j.updateJournalStatus = .ok j') :
    ∃ msec, j'.context.files = [msec] := by
  rw [ShvFileJournal.updateJournalStatus, hdir, List.mapM_cons, List.mapM_nil] at h
  cases hname : fileNameToFileMsec file.1 with
  | error msg => simp [hname, bind, Except.bind] at h
  | ok msec =>
    simp only [hname, bind, Except.bind, pure, Except.pure] at h
    obtain rfl := Except.ok.inj h
    exact ⟨msec, rfl⟩

/-- The only file is never deleted. -/
theorem dirLeft_rotateJournal {j : ShvFileJournal} {file : Bytes × Bytes} (hdir : j.dir = [file]) :
    dirLeft j.rotateJournal = [file] := by
  have hstatus := dirLeft_updateJournalStatus j
  rw [ShvFileJournal.rotateJournal]
  cases hj : j.updateJournalStatus with
  | error failed =>
    rw [hj, hdir] at hstatus
    exact hstatus
  | ok j' =>
    rw [hj, hdir] at hstatus
    obtain ⟨msec, hfiles⟩ := files_of_updateJournalStatus hdir hj
    simp only [bind, Except.bind]
    rw [dirLeft_updateJournalStatus, hfiles, ShvFileJournal.deleteOldest, List.length_singleton,
      if_pos (Or.inl rfl)]
    exact hstatus

/-- The line is written to the only file, whether or not the files are rotated after it. -/
theorem dirLeft_writeEntry {j : ShvFileJournal} {start : Int64} {text : Bytes}
    (hdir : j.dir = [(fileMsecToFileName start, text)])
    (hrecent : j.context.recentTimeStamp = start) (hpos : 0 < start) (now : Int64)
    {e : ShvJournalEntry} (htime : e.epochMsec = start) (hclear : e.Clear) :
    dirLeft (j.writeEntry now start e) =
      [(fileMsecToFileName start, text ++ line start start e)] := by
  obtain ⟨snapshot, hadd⟩ := hclear.addToSnapshot j.snapshot
  have horig : ShvFileJournal.timeOr now e.epochMsec = start := by
    rw [htime]
    exact if_neg (Ne.symm (Int64.ne_of_lt hpos))
  have hmax : max start start = start := ShvFileJournal.max_eq_left_of_le (Int64.le_refl start)
  have happend : j.dir.append (fileMsecToFileName start) (line start start e) =
      [(fileMsecToFileName start, text ++ line start start e)] := by
    rw [hdir, Directory.append, if_pos rfl]
  rw [ShvFileJournal.writeEntry, hadd]
  simp only [horig, hrecent, if_pos hpos, hmax]
  split
  · exact dirLeft_rotateJournal happend
  · exact happend

theorem disk_appendChecked_of_clear {now : Int64} (hclock : 0 < now) {entry : ShvJournalEntry}
    (h : 0 ≤ entry.epochMsec) (hclear : entry.Clear) :
    (left (d.onNewDir.appendChecked now entry)).disk =
      some [(fileMsecToFileName (newTime now entry), snapshotText (newTime now entry) d.snapshot ++
        line (newTime now entry) (newTime now entry) entry)] := by
  rw [appendChecked_of_pos hclock h]
  have hdisk : (d.onNewFile (newTime now entry)).disk = some _ := rfl
  rw [writeEntry, hdisk]
  simp only
  have hdir : (d.onNewFile (newTime now entry)).journal.dir =
      [(fileMsecToFileName (newTime now entry), snapshotText (newTime now entry) d.snapshot)] := rfl
  have hadd : ShvJournalEntry.Clear { entry with epochMsec := newTime now entry } := hclear
  have hwritten := dirLeft_writeEntry hdir rfl (newTime_pos hclock h) now rfl hadd
  rw [disk_left_onDir rfl, hwritten]
  rfl

/-! ## recovery -/

theorem not_appendedTo_self (hdir : d₁.journal.dir = d.journal.dir)
    (entry : ShvJournalEntry) : ¬AppendedTo entry d d₁ := by
  rintro ⟨start, msec, orig_time, -, hfind⟩
  rw [hdir] at hfind
  cases hbefore : d.journal.dir.find? (fileMsecToFileName start) with
  | none =>
    rw [hbefore] at hfind
    contradiction
  | some text =>
    rw [hbefore, Option.getD_some] at hfind
    have hlonger := Option.some.inj hfind
    have hcount : text.count RECORD_SEPARATOR =
        (text ++ line msec orig_time entry).count RECORD_SEPARATOR := by rw [← hlonger]
    rw [List.count_append] at hcount
    exact Nat.ne_of_lt (Nat.lt_add_of_pos_right (count_line_pos msec orig_time entry)) hcount

/-- Where the second attempt leaves one file that has the snapshot alone, the entry is not in
it. -/
theorem not_appendedTo_of_snapshot (hdisk : d.disk = none) {msec : Int64}
    (hdisk₁ : d₁.disk = some [(fileMsecToFileName msec, snapshotText msec d.snapshot)])
    (entry : ShvJournalEntry) : ¬AppendedTo entry d d₁ := by
  rintro ⟨start, msec', orig_time, -, hfind⟩
  rw [journal, journal, hdisk, hdisk₁] at hfind
  simp only [Option.getD_some, Option.getD_none, Directory.find?] at hfind
  split at hfind
  · exact snapshotText_ne msec start msec' orig_time d.snapshot entry (Option.some.inj hfind)
  · exact absurd hfind.symm (Option.some_ne_none _)

theorem appendedTo_of_clear (hdisk : d.disk = none) {start : Int64} {entry : ShvJournalEntry}
    (hdisk₁ : d₁.disk = some [(fileMsecToFileName start, snapshotText start d.snapshot ++
      line start start entry)]) : AppendedTo entry d d₁ := by
  refine ⟨start, start, start, ?_, ?_⟩
  · intro file hfile msec msec' hmsec hmsec'
    rw [journal, hdisk₁] at hfile
    obtain rfl := List.mem_singleton.mp hfile
    rw [Except.ok.inj (hmsec.symm.trans hmsec')]
    exact Int64.le_refl _
  · rw [journal, journal, hdisk, hdisk₁]
    exact if_pos rfl

/-- After a first attempt that failed the second one appends the entry exactly when the directory
was missing although the context said that it was there, it can be made, the time of the entry is
not before 1970, and its value can be put into a snapshot. -/
theorem append_recovers_iff (d d₁ : JournalOnDisk) (now now' : Int64) (entry : ShvJournalEntry)
    (msg : String) (hfirst : d.appendThrow now entry = .error (msg, d₁)) (hclock : 0 < now') :
    AppendedTo entry d₁ (d.append now now' entry) ↔
      (d.disk = none ∧ d.creatable = true ∧ d.isConsistent = true) ∧
        0 ≤ entry.epochMsec ∧ entry.Clear := by
  rw [← missing_after_iff hfirst, append, hfirst]
  simp only
  cases hdisk : d₁.disk with
  | some dir =>
    rw [appendAgain_of_there hdisk]
    exact iff_of_false (not_appendedTo_self rfl entry) (by simp)
  | none =>
    cases hcreatable : d₁.creatable with
    | false =>
      rw [appendAgain_of_not_creatable hdisk hcreatable]
      exact iff_of_false (not_appendedTo_self rfl entry) (by simp)
    | true =>
      rw [appendAgain_of_missing hdisk hcreatable]
      by_cases htime : 0 ≤ entry.epochMsec
      · by_cases hclear : entry.Clear
        · exact iff_of_true (appendedTo_of_clear hdisk (disk_appendChecked_of_clear hclock htime
            hclear)) ⟨⟨rfl, rfl⟩, htime, hclear⟩
        · exact iff_of_false (not_appendedTo_of_snapshot hdisk
            (disk_appendChecked_of_not_clear hclock htime hclear) entry) fun h => hclear h.2.2
      · exact iff_of_false (not_appendedTo_of_snapshot hdisk
          (disk_appendChecked_of_neg hclock (Int64.not_le.mp htime)) entry) fun h => htime h.2.1

/-- A journal of one file on a card. -/
def onCard (disk : Option Directory) (recentTimeStamp : Int64) : JournalOnDisk where
  disk
  creatable := true
  journalDirExists := true
  snapshot := []
  context := ⟨[1000], 10, 10, recentTimeStamp⟩
  fileSizeLimit := 100
  journalSizeLimit := 1000

/-- A change of a value at two seconds. -/
def switchedOn : ShvJournalEntry :=
  ⟨2000, ascii "a", .ofVariant (.int 1), ShvJournalEntry.NO_SHORT_TIME,
    ShvJournalEntry.DOMAIN_VAL_CHANGE, 2, []⟩

/-- The directory is made again when it has gone. -/
theorem append_recovers_noDir :
    AppendedTo switchedOn { onCard none 1000 with snapshot := [(ascii "a", switchedOn)] }
      ((onCard none 1000).append 5000 5000 switchedOn) :=
  (append_recovers_iff (onCard none 1000)
    { onCard none 1000 with snapshot := [(ascii "a", switchedOn)] } 5000 5000 switchedOn
    "Cannot open file for writing" rfl (by decide)).mpr
    ⟨⟨rfl, rfl, rfl⟩, by decide, Or.inr ⟨false, rfl⟩⟩

/-- On a new card with an empty directory the first attempt fails, and there is no second
one. -/
theorem append_not_recovered :
    (onCard (some []) 0).appendThrow 5000 switchedOn =
        .error ("Cannot open file for reading.", onCard (some []) 0) ∧
      ¬AppendedTo switchedOn (onCard (some []) 0)
        ((onCard (some []) 0).append 5000 5000 switchedOn) := by
  refine ⟨rfl, not_appendedTo_self ?_ _⟩
  rfl

end JournalOnDisk

end LibShv
