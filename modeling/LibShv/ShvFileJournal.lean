import LibShv.GetLog
import LibShv.ShvJournalFile

/-!
# LibShv.ShvFileJournal

The journal in the files of a directory (`shvfilejournal.cpp`). An entry goes to the end
of the last file, until that is too big; a new file starts with the snapshot that the
object has in memory. When all the files are too big together, the oldest are deleted.
A new object starts with an empty snapshot and reads the names of the files only.

The directory exists and can be written to. A call looks at the clock once. The files
that `getLog` reads are read to their ends.
-/

namespace LibShv

open ShvJournalFileWriter ShvJournalFileReader

/-! ## the directory -/

/-- The files of a directory: their names and their bytes. -/
abbrev Directory := List (Bytes × Bytes)

namespace Directory

def find? (fn : Bytes) : Directory → Option Bytes
  | [] => none
  | (name, text) :: dir => if name = fn then some text else find? fn dir

/-- Write to the end of a file, which is made if there is none. -/
def append (fn text : Bytes) : Directory → Directory
  | [] => [(fn, text)]
  | (name, text') :: dir =>
    if name = fn then (name, text' ++ text) :: dir else (name, text') :: append fn text dir

def remove (fn : Bytes) (dir : Directory) : Directory := dir.filter fun file => file.1 ≠ fn

/-- `file_size`. -/
def fileSize (fn : Bytes) (dir : Directory) : Int :=
  match dir.find? fn with
  | some text => text.length
  | none => -1

end Directory

/-! ## the journal -/

/-- `ShvFileJournal::JournalContext`. -/
structure JournalContext where
  files : List Int64
  journalSize : Int
  lastFileSize : Int
  recentTimeStamp : Int64

/-- `ShvFileJournal`, and the directory it is on. -/
structure ShvFileJournal where
  dir : Directory
  snapshot : ShvSnapshot
  context : JournalContext
  fileSizeLimit : Int
  journalSizeLimit : Int

/-- Into a sorted list. -/
def insertMsec (msec : Int64) : List Int64 → List Int64
  | [] => [msec]
  | m :: ms => if msec ≤ m then msec :: m :: ms else m :: insertMsec msec ms

/-- `std::sort`. -/
def sortMsecs : List Int64 → List Int64
  | [] => []
  | m :: ms => insertMsec m (sortMsecs ms)

namespace ShvFileJournal

/-- A new object on a directory. -/
def create (dir : Directory) (fileSizeLimit journalSizeLimit : Int) : ShvFileJournal where
  dir
  snapshot := []
  context := ⟨[], -1, -1, 0⟩
  fileSizeLimit
  journalSizeLimit

/-! ## the time of the last entry -/

def isBlank (b : UInt8) : Bool := b = RECORD_SEPARATOR ∨ b = FIELD_SEPARATOR ∨ b = 0x20

/-- Where the last line starts in a chunk: behind a separator, or nowhere. -/
def lineStart (chunk : Bytes) : Option Nat :=
  let trimmed := (chunk.reverse.dropWhile isBlank).reverse
  let body := if trimmed = [] then chunk.take 1 else trimmed
  if RECORD_SEPARATOR ∈ body then
    some (body.length - (body.reverse.takeWhile (· ≠ RECORD_SEPARATOR)).length)
  else none

/-- The time in front of the last line of a chunk. -/
def chunkDateTime (chunk : Bytes) : Option Int64 :=
  match lineStart chunk with
  | none => none
  | some line_start_pos =>
    let line := chunk.drop line_start_pos
    if FIELD_SEPARATOR ∈ line then
      let (dt, len) := RpcDateTime.fromIsoString (line.takeWhile (· ≠ FIELD_SEPARATOR))
      if len > 0 then some dt.msecsSinceEpoch else none
    else none

def CHUNK_LEN : Nat := 512
def TS_LEN : Nat := 30

/-- The chunks of a file from its end, each with the start of the one behind it. -/
def findLastChunk (text : Bytes) : Nat → Nat → Option Int64
  | 0, _ => none
  | fuel + 1, fpos =>
    if fpos = 0 then none
    else
      let fpos := fpos - CHUNK_LEN
      match chunkDateTime ((text.drop fpos).take (CHUNK_LEN + TS_LEN)) with
      | some dt_msec => if 0 < dt_msec then some dt_msec else findLastChunk text fuel fpos
      | none => findLastChunk text fuel fpos

/-- `findLastEntryDateTime`. There is no separator in front of the first line of a file. -/
def findLastEntryDateTime (text : Bytes) (journal_start_msec : Int64) : Int64 :=
  if text = [] then journal_start_msec
  else (findLastChunk text (text.length / CHUNK_LEN + 1) text.length).getD (-1)

/-! ## the context -/

/-- What an exception says, and the journal as it is left. -/
abbrev Thrown := String × ShvFileJournal

/-- `updateJournalStatus`. A name that is no time ends it with an exception. -/
def updateJournalStatus (j : ShvFileJournal) : Except Thrown ShvFileJournal :=
  match j.dir.mapM fun file => fileNameToFileMsec file.1 with
  | .error msg => .error (msg, { j with context := { j.context with
      files := []
      journalSize := 0
      lastFileSize := 0 } })
  | .ok files =>
    let sizes := j.dir.map fun file => (file.2.length : Int)
    let last := (files.zip sizes).foldl
      (fun last file => if last.1 < file.1 then file else last) (-1, 0)
    .ok { j with context := { j.context with
      files := sortMsecs files
      journalSize := sizes.foldl (· + ·) 0
      lastFileSize := last.2 } }

/-- `checkJournalContext_helper` without force. -/
def checkJournalContext (j : ShvFileJournal) : Except Thrown ShvFileJournal :=
  if 0 ≤ j.context.journalSize then .ok j
  else { j with context := { j.context with recentTimeStamp := 0 } }.updateJournalStatus

/-- `checkRecentTimeStamp`. -/
def checkRecentTimeStamp (j : ShvFileJournal) : ShvFileJournal :=
  if 0 < j.context.recentTimeStamp then j
  else
    let recentTimeStamp :=
      match j.context.files.getLast? with
      | none => 0
      | some last_file_start_msec =>
        let text := (j.dir.find? (fileMsecToFileName last_file_start_msec)).getD []
        max (findLastEntryDateTime text last_file_start_msec) 0
    { j with context := { j.context with recentTimeStamp } }

/-! ## new and old files -/

/-- `createNewLogFile`: a file that starts with the snapshot. -/
def createNewLogFile (now journal_file_start_msec : Int64) (j : ShvFileJournal) :
    Except Thrown ShvFileJournal :=
  let start := if journal_file_start_msec = 0 then now else journal_file_start_msec
  if journal_file_start_msec = 0 ∧ ∃ last ∈ j.context.files.getLast?, now ≤ last then
    .error ("Journal context corrupted, new log file is older than last existing one.", j)
  else
    .ok { j with
      dir := j.dir.append (fileMsecToFileName start) (snapshotText start j.snapshot)
      context := { j.context with
        files := j.context.files ++ [start]
        recentTimeStamp := start } }

/-- The loop of `rotateJournal`: at least one file is kept. -/
def deleteOldest (limit : Int) : List Int64 → Nat → Int → Directory → Directory
  | [], _, _, dir => dir
  | file_msec :: files, file_cnt, journalSize, dir =>
    if file_cnt = 1 ∨ journalSize < limit then dir
    else
      let fn := fileMsecToFileName file_msec
      deleteOldest limit files (file_cnt - 1) (journalSize - dir.fileSize fn) (dir.remove fn)

/-- `rotateJournal`. -/
def rotateJournal (j : ShvFileJournal) : Except Thrown ShvFileJournal := do
  let j ← j.updateJournalStatus
  let dir := deleteOldest j.journalSizeLimit j.context.files j.context.files.length
    j.context.journalSize j.dir
  { j with dir }.updateJournalStatus

/-! ## appending -/

/-- The time of an entry, or the clock's. -/
def timeOr (now msec : Int64) : Int64 := if msec = 0 then now else msec

/-- Is the last file too big, or is there none? -/
def needsNewFile (j : ShvFileJournal) : Bool :=
  j.context.files = [] ∨ j.context.lastFileSize > j.fileSizeLimit

/-- The file that an entry goes to, by its start. -/
def logFile (now msec : Int64) (j : ShvFileJournal) : Except Thrown (ShvFileJournal × Int64) :=
  if j.needsNewFile then do return (← j.createNewLogFile now msec, msec)
  else .ok (j, j.context.files.getLast?.getD 0)

/-- The end of `appendThrow`: the entry goes to the snapshot and to the file. -/
def writeEntry (now start : Int64) (e : ShvJournalEntry) (j : ShvFileJournal) :
    Except Thrown ShvFileJournal :=
  match addToSnapshot j.snapshot e with
  | .error msg => .error (msg, j)
  | .ok snapshot =>
    let orig_time := timeOr now e.epochMsec
    let msec := if 0 < j.context.recentTimeStamp then max orig_time j.context.recentTimeStamp
      else orig_time
    let fn := fileMsecToFileName start
    let text := line msec orig_time e
    let orig_fsz := (j.dir.find? fn).getD [] |>.length
    let j := { j with
      dir := j.dir.append fn text
      snapshot
      context := { j.context with
        recentTimeStamp := msec
        lastFileSize := orig_fsz + text.length
        journalSize := j.context.journalSize + text.length } }
    if j.context.journalSize > j.journalSizeLimit then j.rotateJournal else .ok j

/-- `appendThrow`. -/
def appendThrow (now : Int64) (entry : ShvJournalEntry) (j : ShvFileJournal) :
    Except Thrown ShvFileJournal := do
  let j := (← j.checkJournalContext).checkRecentTimeStamp
  let e := { entry with
    epochMsec := max (timeOr now entry.epochMsec) j.context.recentTimeStamp }
  let (j, journal_file_start_msec) ← j.logFile now e.epochMsec
  if ∃ last ∈ j.context.files.getLast?, journal_file_start_msec < last then
    throw ("Journal context corrupted!", j)
  else j.writeEntry now journal_file_start_msec e

/-- `append`. After an exception the directory should be read again, but
`createJournalDirIfNotExist` throws where the directory is there already. -/
def append (now : Int64) (entry : ShvJournalEntry) (j : ShvFileJournal) : ShvFileJournal :=
  match j.appendThrow now entry with
  | .ok j => j
  | .error (_, j) => j

/-! ## reading the log -/

/-- `newestMatchingFileIt` behind the first file that is older than `since`: the last file
that is not newer. -/
def lastMatching (since_param_ms : Int64) (last_matching : List Int64) :
    List Int64 → List Int64
  | [] => last_matching
  | file :: files =>
    if since_param_ms < file then last_matching
    else lastMatching since_param_ms (file :: files) files

/-- `newestMatchingFileIt`: the files from there on. -/
def newestMatchingFileIt (files : List Int64) (params : ShvGetLogParams) : List Int64 :=
  match files with
  | [] => []
  | first :: rest =>
    if params.since.dateTime?.isNone ∧ ¬params.isSinceLast then files
    else if params.isSinceLast then files.drop rest.length
    else if params.sinceMsec ≤ first then files
    else lastMatching params.sinceMsec files files

/-- The files that are not empty. -/
def nonEmptyFiles (j : ShvFileJournal) : List Int64 :=
  j.context.files.filter fun msec => 0 < j.dir.fileSize (fileMsecToFileName msec)

/-- The entries of a file. -/
def fileEntries (j : ShvFileJournal) (msec : Int64) : Except String (List ShvJournalEntry) :=
  match j.dir.find? (fileMsecToFileName msec) with
  | some text => readFile text
  | none => .error "Cannot open file for reading."

/-- `getLog` over files. -/
def getLogFrom (files : List Int64) (params : ShvGetLogParams) (now : RpcDateTime)
    (ignoreRecordCountLimit : Bool) (j : ShvFileJournal) : Except String GetLogResult := do
  let entries ← files.mapM j.fileEntries
  GetLog.getLog entries.flatten params now ignoreRecordCountLimit

/-- The journal when its context is known to be consistent. -/
def checked (j : ShvFileJournal) : Except String ShvFileJournal :=
  j.checkJournalContext.mapError (·.1)

/-- `ShvFileJournal::getLog`. -/
def getLog (params : ShvGetLogParams) (now : RpcDateTime) (ignoreRecordCountLimit : Bool)
    (j : ShvFileJournal) : Except String GetLogResult := do
  let j ← j.checked
  j.getLogFrom (newestMatchingFileIt j.nonEmptyFiles params) params now ignoreRecordCountLimit

/-- The same over all the files. -/
def getLogOfAllFiles (params : ShvGetLogParams) (now : RpcDateTime)
    (ignoreRecordCountLimit : Bool) (j : ShvFileJournal) : Except String GetLogResult := do
  let j ← j.checked
  j.getLogFrom j.nonEmptyFiles params now ignoreRecordCountLimit

/-! ## runs -/

/-- What happens to a journal: an entry is appended at a time of the clock, or a new object
is made on its directory. -/
inductive Step where
  | append (now : Int64) (entry : ShvJournalEntry)
  | restart (fileSizeLimit journalSizeLimit : Int)

def step (j : ShvFileJournal) : Step → ShvFileJournal
  | .append now entry => j.append now entry
  | .restart fileSizeLimit journalSizeLimit => create j.dir fileSizeLimit journalSizeLimit

def run (j : ShvFileJournal) (steps : List Step) : ShvFileJournal := steps.foldl step j

end ShvFileJournal

end LibShv
