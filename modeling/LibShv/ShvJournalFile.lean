import LibShv.CponReader
import LibShv.CponWriter
import LibShv.ShvJournalEntry

/-!
# LibShv.ShvJournalFile

The files of a journal (`shvjournalfilewriter.cpp`, `shvjournalfilereader.cpp`): a line
for each entry, with a tab between the columns. The name of a file is the time it starts
at. A line that cannot be read is left out.
-/

namespace LibShv

open CCpon

/-! ## times as text -/

/-- `RpcDateTime::toIsoString`. -/
def RpcDateTime.toIsoString (dt : RpcDateTime) : Bytes :=
  packDateTimeStr dt.msecsSinceEpoch dt.utcOffsetMin

/-- `toIsoString(MsecPolicy::Always, false)` of a UTC time. -/
def RpcDateTime.toIsoStringMsec (dt : RpcDateTime) : Bytes :=
  let epochMsecs := dt.msecsSinceEpoch
  let tm := gmtime (epochMsecs / 1000)
  let str := dateField (tm.tm_year + 1900) ++ minus :: dateField (tm.tm_mon + 1) ++
    minus :: dateField tm.tm_mday ++ 0x54 :: dateField tm.tm_hour ++
    C_KEY_DELIM :: dateField tm.tm_min ++ C_KEY_DELIM :: dateField tm.tm_sec
  str ++ dot :: uintToStrLpad str (epochMsecs % 1000).toInt32.toUInt32.toUInt64 3 0x30

/-- `RpcDateTime::fromIsoString`: the time, and how many bytes it takes; none if it is no time. -/
def RpcDateTime.fromIsoString (utc_date_time_str : Bytes) : RpcDateTime × Nat :=
  let none := (RpcDateTime.fromMSecsSinceEpoch 0 0, 0)
  if utc_date_time_str = [] then none
  else
    match unpackDateTime (openStream utc_date_time_str) with
    | .error _ _ => none
    | .ok item c =>
      let len := utc_date_time_str.length - c.input.length
      if c.reg.errNo = .ok then
        match item with
        | .dateTime msecs_since_epoch minutes_from_utc =>
          (.fromMSecsSinceEpoch msecs_since_epoch minutes_from_utc, len)
        | _ => (none.1, len)
      else none

/-! ## writing -/

def FIELD_SEPARATOR : UInt8 := 0x09
def RECORD_SEPARATOR : UInt8 := 0x0a

namespace ShvJournalFileWriter

/-- A time as it is written. -/
def timeText (msec : Int64) : Bytes := (RpcDateTime.fromMSecsSinceEpoch msec 0).toIsoString

/-- `ShvJournalFileWriter::append`: the line of an entry. -/
def line (msec orig_time : Int64) (entry : ShvJournalEntry) : Bytes :=
  timeText msec ++ FIELD_SEPARATOR ::
  ((if orig_time ≠ msec then timeText orig_time else []) ++ FIELD_SEPARATOR ::
  (entry.path ++ FIELD_SEPARATOR ::
  (CponWriter.toCpon [] entry.value ++ FIELD_SEPARATOR ::
  ((if 0 ≤ entry.shortTime then intToStr entry.shortTime.toInt64 else []) ++ FIELD_SEPARATOR ::
  (entry.domain ++ FIELD_SEPARATOR ::
  (intToStr entry.valueFlags.toInt32.toInt64 ++ FIELD_SEPARATOR ::
  (entry.userId ++ [RECORD_SEPARATOR])))))))

/-- `append(entry)`: an entry without a time is written with the time of the call. -/
def append (now : Int64) (entry : ShvJournalEntry) : Bytes :=
  let msec := if entry.epochMsec = 0 then now else entry.epochMsec
  line msec msec entry

/-- An entry as a snapshot has it. -/
def snapshotEntry (e : ShvJournalEntry) : ShvJournalEntry :=
  (e.setSnapshotValue true).setSpontaneous false

/-- `ShvJournalFileWriter::appendSnapshot`. -/
def snapshotText (msec : Int64) (snapshot : ShvSnapshot) : Bytes :=
  snapshot.flatMap fun kv => line msec msec (snapshotEntry kv.2)

end ShvJournalFileWriter

/-! ## reading -/

/-- `isspace`. -/
def isSpace (b : UInt8) : Bool := b = 0x20 ∨ (0x09 ≤ b ∧ b ≤ 0x0d)

/-- The sign of a number, and what is behind it. -/
def takeSign : Bytes → Bool × Bytes
  | 0x2d :: s => (true, s)
  | 0x2b :: s => (false, s)
  | s => (false, s)

/-- `utils::toInt`: the whole text has to be a number that an `int` can hold. -/
def textToInt (str : Bytes) : Option Int32 :=
  let (neg, ds) := takeSign (str.dropWhile isSpace)
  if ds ≠ [] ∧ ∀ d ∈ ds, 48 ≤ d ∧ d ≤ 57 then
    let n : Int := if neg then -Decimal.value 0 ds else Decimal.value 0 ds
    if Int32.minValue.toInt ≤ n ∧ n ≤ Int32.maxValue.toInt then some (Int32.ofInt n) else none
  else none

namespace ShvJournalFileReader

/-- The pieces between separators. -/
def split (sep : UInt8) (piece : Bytes) : Bytes → List Bytes
  | [] => [piece]
  | c :: text => if c = sep then piece :: split sep [] text else split sep (piece ++ [c]) text

/-- `RpcValue::fromCpon` with an `err`: no value if it is set. -/
def fromCpon (str : Bytes) : Except String (Option RpcValue) :=
  match CponReader.readFrom str with
  | .ok v _ => .ok (some v)
  | .error (.parse _ _) _ => .ok none
  | .error _ _ => .error "fromCpon"

/-- The value of a line; a line without the column has an invalid one. -/
def valueOf : Option Bytes → Except String (Option RpcValue)
  | none => .ok (some .invalid)
  | some fld => fromCpon fld

/-- `TxtColumn`. -/
def Timestamp : Nat := 0
def Path : Nat := 2
def Value : Nat := 3
def ShortTime : Nat := 4
def Domain : Nat := 5
def ValueFlags : Nat := 6
def UserId : Nat := 7

def shortTimeOf (fld : Bytes) : Int32 :=
  match textToInt fld with
  | some short_time => if 0 ≤ short_time then short_time else ShvJournalEntry.NO_SHORT_TIME
  | none => ShvJournalEntry.NO_SHORT_TIME

/-- The entry of a line, unless the line is ignored. -/
def readLine (line : Bytes) : Except String (Option ShvJournalEntry) := do
  let fields := split FIELD_SEPARATOR [] line
  let dt := RpcDateTime.fromIsoString (fields[Timestamp]?.getD [])
  if dt.2 = 0 ∨ (line)[dt.2]? ≠ some FIELD_SEPARATOR then return none
  else if fields[Path]? = some [] then return none
  else
    match ← valueOf fields[Value]? with
    | none => return none
    | some value =>
      return some {
        epochMsec := dt.1.msecsSinceEpoch
        path := fields[Path]?.getD []
        value := value
        shortTime := shortTimeOf (fields[ShortTime]?.getD [])
        domain := if fields[Domain]? = some [] then ShvJournalEntry.DOMAIN_VAL_CHANGE
          else fields[Domain]?.getD []
        valueFlags := ((textToInt (fields[ValueFlags]?.getD [])).getD 0).toUInt32
        userId := fields[UserId]?.getD [] }

/-- Empty lines are skipped. -/
def lineEntry (line : Bytes) : Except String (Option ShvJournalEntry) :=
  if line = [] then .ok none else readLine line

/-- The entries of lines. -/
def readLines : List Bytes → Except String (List ShvJournalEntry)
  | [] => .ok []
  | line :: lines => do return (← lineEntry line).toList ++ (← readLines lines)

/-- The entries of a file. Zeros are skipped. -/
def readFile (text : Bytes) : Except String (List ShvJournalEntry) :=
  readLines (split RECORD_SEPARATOR [] (text.filter (· ≠ 0)))

/-! ## reading what was written -/

theorem split_append (sep : UInt8) (piece a b : Bytes) :
    split sep piece (a ++ sep :: b) = split sep piece a ++ split sep [] b := by
  induction a generalizing piece with
  | nil => simp [split]
  | cons c a ih =>
    rw [List.cons_append, split, split]
    by_cases hc : c = sep
    · rw [if_pos hc, if_pos hc, ih, List.cons_append]
    · rw [if_neg hc, if_neg hc, ih]

theorem readLines_append (a b : List Bytes) :
    readLines (a ++ b) = do return (← readLines a) ++ (← readLines b) := by
  induction a with
  | nil =>
    rw [List.nil_append, readLines]
    cases readLines b <;> rfl
  | cons line a ih =>
    rw [List.cons_append, readLines, readLines, ih]
    cases lineEntry line with
    | error msg => rfl
    | ok e =>
      cases readLines a with
      | error msg => rfl
      | ok es => cases readLines b <;> simp [bind, Except.bind, pure, Except.pure]

/-- The text is made of whole lines. -/
def Ended (text : Bytes) : Prop := text = [] ∨ ∃ body, text = body ++ [RECORD_SEPARATOR]

theorem Ended.append {a b : Bytes} (ha : Ended a) (hb : Ended b) : Ended (a ++ b) := by
  rcases hb with rfl | ⟨body, rfl⟩
  · rwa [List.append_nil]
  · exact .inr ⟨a ++ body, by simp⟩

theorem ended_line (msec orig_time : Int64) (entry : ShvJournalEntry) :
    Ended (ShvJournalFileWriter.line msec orig_time entry) := by
  right
  unfold ShvJournalFileWriter.line
  simp only [← List.append_assoc, ← List.cons_append]
  exact ⟨_, rfl⟩

theorem ended_snapshotText (msec : Int64) (snapshot : ShvSnapshot) :
    Ended (ShvJournalFileWriter.snapshotText msec snapshot) := by
  induction snapshot with
  | nil => exact .inl rfl
  | cons kv snapshot ih => exact (ended_line _ _ _).append ih

/-- Text behind whole lines is read on its own. -/
theorem readFile_append {a b : Bytes} (ha : Ended a) {es es' : List ShvJournalEntry}
    (hes : readFile a = .ok es) (hes' : readFile b = .ok es') :
    readFile (a ++ b) = .ok (es ++ es') := by
  have hnil : readLines [[]] = .ok [] := rfl
  rcases ha with rfl | ⟨body, rfl⟩
  · obtain rfl : [] = es := Except.ok.inj hes
    exact hes'
  · have hfilter : ∀ tail : Bytes, (body ++ RECORD_SEPARATOR :: tail).filter (· ≠ 0) =
        body.filter (· ≠ 0) ++ RECORD_SEPARATOR :: tail.filter (· ≠ 0) := by
      intro tail
      simp [RECORD_SEPARATOR]
    have hbody : readLines (split RECORD_SEPARATOR [] (body.filter (· ≠ 0))) = .ok es := by
      rw [readFile, hfilter, split_append, readLines_append,
        show split RECORD_SEPARATOR [] (List.filter _ []) = [[]] from rfl, hnil] at hes
      revert hes
      cases readLines (split RECORD_SEPARATOR [] (body.filter (· ≠ 0))) with
      | error msg => exact fun hes => nomatch hes
      | ok es₀ =>
        intro hes
        rw [← Except.ok.inj hes, List.append_nil]
    rw [readFile] at hes' ⊢
    rw [List.append_assoc, List.singleton_append, hfilter, split_append, readLines_append, hbody,
      hes']
    rfl

/-! ## names of files -/

/-- `msecToBaseFileName` with the extension behind it. -/
def fileMsecToFileName (msec : Int64) : Bytes :=
  let fn := (RpcDateTime.fromMSecsSinceEpoch msec 0).toIsoStringMsec
  ((fn.set 13 minus).set 16 minus).set 19 minus ++ ascii ".log2"

/-- `fileNameToFileMsec`. -/
def fileNameToFileMsec (fn : Bytes) : Except String Int64 :=
  if 19 ≥ fn.length then .error "fileNameToFileMsec(): File name too short."
  else
    let (dt, len) :=
      RpcDateTime.fromIsoString (((fn.set 13 C_KEY_DELIM).set 16 C_KEY_DELIM).set 19 dot)
    if dt.msecsSinceEpoch = 0 ∨ len = 0 then
      .error "fileNameToFileMsec(): Invalid file name cannot be converted to date time"
    else .ok dt.msecsSinceEpoch

end ShvJournalFileReader

end LibShv
