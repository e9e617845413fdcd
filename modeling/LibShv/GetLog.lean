import LibShv.ShvJournalEntry

/-!
# LibShv.GetLog

`getLog` (`getlog.cpp`): the entries of a journal that match a pattern, between
two times and up to a number of records, after a snapshot of the last values
before the first time.

The readers give their entries one after another, so they are one list here. The
pattern is any test of a path and a domain. Log output and the parts of the
header that are only copied into it (the parameters, the time of the call) are
left out.
-/

namespace LibShv

/-! ## parameters and results -/

/-- `ShvGetLogParams`, with the pattern as the test that is made from it. -/
structure ShvGetLogParams where
  since : RpcValue
  until_ : RpcValue
  pattern : Bytes → Bytes → Bool
  recordCountLimit : Int32
  withSnapshot : Bool
  withPathsDict : Bool

/-- `RpcValue::toDateTime`, for a value that is a date-time. -/
def RpcValue.dateTime? (v : RpcValue) : Option RpcDateTime :=
  match v.value with
  | .dateTime dt => some dt
  | _ => none

namespace ShvGetLogParams

/-- `ShvGetLogParams::isSinceLast`. -/
def isSinceLast (params : ShvGetLogParams) : Bool :=
  params.since.asString = ascii "now" ∨ params.since.asString = ascii "last"

/-- `params_since_msec`. -/
def sinceMsec (params : ShvGetLogParams) : Int64 :=
  match params.since.dateTime? with
  | some dt => dt.msecsSinceEpoch
  | none => 0

/-- `params_until_msec`. -/
def untilMsec (params : ShvGetLogParams) : Int64 :=
  match params.until_.dateTime? with
  | some dt => dt.msecsSinceEpoch
  | none => Int64.maxValue

/-- `pattern_matcher.match(entry)`. -/
def matchesEntry (params : ShvGetLogParams) (entry : ShvJournalEntry) : Bool :=
  params.pattern entry.path entry.domain

/-- A snapshot needs a `since`. -/
def snapshotWanted (params : ShvGetLogParams) : Bool := params.withSnapshot && params.since.isValid

end ShvGetLogParams

def DEFAULT_GET_LOG_RECORD_COUNT_LIMIT : Int32 := 10000

/-- `ShvLogHeader`. -/
structure ShvLogHeader where
  recordCount : Nat
  recordCountLimit : Int32
  recordCountLimitHit : Bool
  withSnapShot : Bool
  withPathsDict : Bool
  pathDict : RpcIMap
  since : RpcValue
  until_ : RpcValue

/-- The rows of a log, the snapshot first, and the header. -/
structure GetLogResult where
  snapshotEntries : RpcList
  logEntries : RpcList
  header : ShvLogHeader

def GetLogResult.entries (r : GetLogResult) : RpcList := r.snapshotEntries ++ r.logEntries

namespace GetLog

/-! ## the loop -/

/-- The variables of the loop over the entries. -/
structure Loop where
  snapshot : ShvSnapshot
  result_log : List ShvJournalEntry
  recordCountLimitHit : Bool
  last_entry : Option ShvJournalEntry
  first_unmatching_entry : Option ShvJournalEntry
  have_data_before_since_param : Bool

def Loop.start : Loop := ⟨[], [], false, none, none, false⟩

/-- `entry.dateTime() != last_entry->dateTime()`, if there is a last entry. -/
def timeChanged (last_entry : Option ShvJournalEntry) (entry : ShvJournalEntry) : Bool :=
  match last_entry with
  | some last => entry.dateTime.msec ≠ last.dateTime.msec
  | none => false

/-- An entry in the range of times: it is kept, or the limit ends the loop before it. -/
def record (params : ShvGetLogParams) (st : Loop) (entry : ShvJournalEntry) : Loop × Bool :=
  let exceeded := decide (params.recordCountLimit.toInt <
    (st.snapshot.length : Int) + st.result_log.length + 1)
  let st := { st with recordCountLimitHit := st.recordCountLimitHit || exceeded }
  if exceeded && timeChanged st.last_entry entry then
    ({ st with first_unmatching_entry := some entry }, false)
  else
    ({ st with result_log := st.result_log ++ [entry], last_entry := some entry }, true)

/-- The body of the loop for an entry that matches; is the loop to go on? -/
def step (params : ShvGetLogParams) (st : Loop) (entry : ShvJournalEntry) :
    Except String (Loop × Bool) := do
  let before := params.isSinceLast || decide (entry.epochMsec ≤ params.sinceMsec)
  let snapshot ← if before then addToSnapshot st.snapshot entry else .ok st.snapshot
  let st := { st with snapshot := snapshot }
  if params.untilMsec ≤ entry.epochMsec then
    return ({ st with first_unmatching_entry := some entry }, false)
  else if before then
    return ({ st with have_data_before_since_param := true, last_entry := some entry }, true)
  else return record params st entry

/-- The loop. -/
def collect (params : ShvGetLogParams) : Loop → List ShvJournalEntry → Except String Loop
  | st, [] => .ok st
  | st, entry :: entries =>
    if params.matchesEntry entry then
      match step params st entry with
      | .error e => .error e
      | .ok (st, true) => collect params st entries
      | .ok (st, false) => .ok st
    else collect params st entries

/-! ## rows -/

/-- `as_shared_path`: the number of a path, a new one if it is new. -/
def asSharedPath (path_map : RpcMap) (path : Bytes) : RpcValue × RpcMap :=
  match SortedMap.find? path path_map with
  | some ret => (ret, path_map)
  | none =>
    let ret := .ofInt32 (Int32.ofNat path_map.length)
    (ret, SortedMap.insert path ret path_map)

/-- `append_log_entry`: a row and the paths after it. -/
def logRow (withPathsDict : Bool) (pathCache : RpcMap) (e : ShvJournalEntry) : RpcValue × RpcMap :=
  if withPathsDict then
    let r := asSharedPath pathCache e.path
    (.ofVariant (.list (e.toRpcValueList r.1)), r.2)
  else (.ofVariant (.list (e.toRpcValueList (.ofVariant (.string e.path)))), pathCache)

/-- Rows one after another. -/
def logRows (withPathsDict : Bool) (pathCache : RpcMap) : List ShvJournalEntry → RpcList × RpcMap
  | [] => ([], pathCache)
  | e :: es =>
    let r := logRow withPathsDict pathCache e
    let rs := logRows withPathsDict r.2 es
    (r.1 :: rs.1, rs.2)

/-- `snapshot_to_entries`: all the entries of a snapshot have one time. -/
def snapshotToEntries (snapshot : ShvSnapshot) (since_last : Bool) (params_since_msec : Int64) :
    List ShvJournalEntry :=
  let since_res :=
    if since_last then snapshot.foldl (fun t kv => max kv.2.epochMsec t) params_since_msec
    else params_since_msec
  snapshot.map fun kv =>
    ({ kv.2 with epochMsec := since_res }.setSnapshotValue true).setSpontaneous false

/-- The paths under their numbers. -/
def pathDict (pathCache : RpcMap) : Except String RpcIMap :=
  pathCache.foldlM (fun dict kv => do
    return SortedMap.insert (← kv.2.toInt) (.ofVariant (.string kv.1)) dict) []

/-- The dictionary of the header, if there is to be one. -/
def headerPathDict (withPathsDict : Bool) (pathCache : RpcMap) : Except String RpcIMap :=
  if withPathsDict then pathDict pathCache else .ok []

/-- `unmap_path`. -/
def unmapPath (withPathsDict : Bool) (dict : RpcIMap) (path : RpcValue) : Except String Bytes :=
  if withPathsDict then do
    match SortedMap.find? (← path.toInt) dict with
    | some p => return p.asString
    | none => throw "map::at"
  else .ok path.asString

/-- A row as an entry. -/
def rowEntry (withPathsDict : Bool) (dict : RpcIMap) (row : RpcValue) :
    Except String ShvJournalEntry :=
  ShvJournalEntry.fromRpcValueList row.asList (unmapPath withPathsDict dict)

/-! ## the log -/

/-- Is the time of an entry less than a second from now? -/
def isFresh (now : RpcDateTime) (e : ShvJournalEntry) : Bool :=
  (e.dateTime.msec.toInt - now.msec.toInt).natAbs < 1000

/-- The rows that do not have the time of an entry. -/
def eraseTime (entryOf : RpcValue → Except String ShvJournalEntry) (e : ShvJournalEntry)
    (rows : RpcList) : Except String RpcList :=
  rows.filterM fun row => do return (← entryOf row).dateTime.msec ≠ e.dateTime.msec

/-- `since` and `until` of the header. -/
def headerTimes (params : ShvGetLogParams) (st : Loop) (first_unmatching : Option ShvJournalEntry)
    (result_entries : RpcList) : Except String (RpcValue × RpcValue) :=
  match result_entries with
  | [] => .ok (if params.since.isValid then params.since else params.until_,
      if params.until_.isValid then params.until_ else params.since)
  | row :: _ =>
    let first_entry := RpcList.value row.asList ShvJournalEntry.Timestamp
    if params.isSinceLast then .ok (first_entry, first_entry)
    else
      match first_unmatching with
      | some e => .ok (if st.have_data_before_since_param then params.since else first_entry,
          .ofVariant (.dateTime e.dateTime))
      | none => .error "bad optional access"

/-- The rows of the snapshot: all the last values, or only the last entry. -/
def snapshotRows (params : ShvGetLogParams) (st : Loop) (pathCache : RpcMap) : RpcList × RpcMap :=
  if params.snapshotWanted then
    logRows params.withPathsDict pathCache
      (snapshotToEntries st.snapshot params.isSinceLast params.sinceMsec)
  else
    match st.last_entry with
    | some e => if params.isSinceLast then logRows params.withPathsDict pathCache [e]
        else ([], pathCache)
    | none => ([], pathCache)

/-- The entry the next log is to start from: the one the loop ended at, or else the
last row there is. -/
def firstUnmatching (params : ShvGetLogParams) (st : Loop) (snapshot_entries result_log : RpcList)
    (entryOf : RpcValue → Except String ShvJournalEntry) (now : RpcDateTime) :
    Except String (Option ShvJournalEntry × RpcList × RpcList) := do
  match st.first_unmatching_entry, result_log.getLast?, snapshot_entries.getLast? with
  | some e, _, _ => return (some e, snapshot_entries, result_log)
  | none, none, none => return (none, snapshot_entries, result_log)
  | none, none, some row => return (some (← entryOf row), snapshot_entries, result_log)
  | none, some row, _ =>
    if params.isSinceLast then return (none, snapshot_entries, result_log)
    let e ← entryOf row
    if isFresh now e then
      return (some e, ← eraseTime entryOf e snapshot_entries, ← eraseTime entryOf e result_log)
    else return (some e, snapshot_entries, result_log)

/-- `getLog`. -/
def getLog (entries : List ShvJournalEntry) (params : ShvGetLogParams) (now : RpcDateTime)
    (ignoreRecordCountLimit : Bool) : Except String GetLogResult := do
  let record_count_limit := if ignoreRecordCountLimit then Int32.maxValue
    else min params.recordCountLimit DEFAULT_GET_LOG_RECORD_COUNT_LIMIT
  let st ← collect params .start entries
  let log := logRows params.withPathsDict [] st.result_log
  let snapshot := snapshotRows params st log.2
  let dict ← headerPathDict params.withPathsDict snapshot.2
  let (first_unmatching, snapshot_entries, result_log) ← firstUnmatching params st snapshot.1 log.1
    (rowEntry params.withPathsDict dict) now
  let (since, until_) ← headerTimes params st first_unmatching (snapshot_entries ++ result_log)
  return {
    snapshotEntries := snapshot_entries
    logEntries := result_log
    header := {
      recordCount := (snapshot_entries ++ result_log).length
      recordCountLimit := record_count_limit
      recordCountLimitHit := st.recordCountLimitHit
      withSnapShot := params.snapshotWanted
      withPathsDict := params.withPathsDict
      pathDict := dict
      since := since
      until_ := until_ } }

end GetLog

end LibShv
