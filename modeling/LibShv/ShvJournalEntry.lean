import LibShv.RpcMessage

/-!
# LibShv.ShvJournalEntry

Entries of a journal (`shvjournalentry.cpp`), the rows they are written to in a
log, and the snapshot of the last values (`abstractshvjournal.cpp`).
-/

namespace LibShv

/-- `ShvJournalEntry`. -/
structure ShvJournalEntry where
  epochMsec : Int64
  path : Bytes
  value : RpcValue
  shortTime : Int32
  domain : Bytes
  valueFlags : UInt32
  userId : Bytes

namespace ShvJournalEntry

def NO_SHORT_TIME : Int32 := -1
def DOMAIN_VAL_CHANGE : Bytes := ascii "chng"

/-- The default-constructed entry. -/
def empty : ShvJournalEntry := ⟨0, [], .invalid, NO_SHORT_TIME, [], 0, []⟩

/-- `ShvJournalEntry::dateTime`. -/
def dateTime (e : ShvJournalEntry) : RpcDateTime := .fromMSecsSinceEpoch e.epochMsec 0

/-! ## value flags -/

/-- `DataChange::setBit`. -/
def setBit (n : UInt32) (pos : UInt32) (b : Bool) : UInt32 :=
  let n := n &&& ~~~(1 <<< pos)
  if b then n ||| (1 <<< pos) else n

def setSnapshotValue (e : ShvJournalEntry) (b : Bool) : ShvJournalEntry :=
  { e with valueFlags := setBit e.valueFlags 0 b }

def setSpontaneous (e : ShvJournalEntry) (b : Bool) : ShvJournalEntry :=
  { e with valueFlags := setBit e.valueFlags 1 b }

/-! ## rows -/

/-- A value that may be left out: null if it is. -/
def orNull (isNull : Bool) (v : Variant) : RpcValue := .ofVariant (if isNull then .null else v)

/-- `ShvJournalEntry::toRpcValueList`, with the path as it is mapped. -/
def toRpcValueList (e : ShvJournalEntry) (path : RpcValue) : RpcList :=
  [.ofVariant (.dateTime e.dateTime), path, e.value,
    orNull (e.shortTime = NO_SHORT_TIME) (.int e.shortTime.toInt64),
    orNull (e.domain = [] ∨ e.domain = DOMAIN_VAL_CHANGE) (.string e.domain),
    .ofVariant (.uint e.valueFlags.toUInt64), orNull (e.userId = []) (.string e.userId)]

/-- The columns of a row. -/
def Timestamp : Nat := 0
def Path : Nat := 1
def Value : Nat := 2
def ShortTime : Nat := 3
def Domain : Nat := 4
def ValueFlags : Nat := 5
def UserId : Nat := 6

end ShvJournalEntry

/-- `RpcList::value`. -/
def RpcList.value (row : RpcList) (ix : Nat) : RpcValue := row[ix]?.getD .invalid

namespace ShvJournalEntry

/-- A short time is an integer that is not negative. -/
def shortTimeOf (st : RpcValue) : Int32 :=
  match st.value with
  | .int n => if 0 ≤ n.toInt32 then n.toInt32 else NO_SHORT_TIME
  | _ => NO_SHORT_TIME

/-- `ShvJournalEntry::fromRpcValueList`, with the function that gives the path back.
Without an `err` a bad row gives an empty entry. -/
def fromRpcValueList (row : RpcList) (unmap_path : RpcValue → Except String Bytes) :
    Except String ShvJournalEntry := do
  match (RpcList.value row Timestamp).value with
  | .dateTime dt =>
    let path ← unmap_path (RpcList.value row Path)
    if path = [] then return empty
    let domain := (RpcList.value row Domain).asString
    return {
      epochMsec := dt.msecsSinceEpoch
      path := path
      value := RpcList.value row Value
      shortTime := shortTimeOf (RpcList.value row ShortTime)
      domain := if domain = [] ∨ domain = ascii "C" then DOMAIN_VAL_CHANGE else domain
      valueFlags := (← (RpcList.value row ValueFlags).toInt64).toUInt64.toUInt32
      userId := (RpcList.value row UserId).asString }
  | _ => return empty

end ShvJournalEntry

/-! ## snapshots -/

/-- `ShvSnapshot`: the entries by their paths. -/
abbrev ShvSnapshot := List (Bytes × ShvJournalEntry)

namespace ShvSnapshot

/-- The loop of `ShvPath::forEachDirAndSubdirsDeleteIf` from the first key that is
not less than the directory. -/
def deleteFrom (root_dir : Bytes) : ShvSnapshot → ShvSnapshot
  | [] => []
  | (key, e) :: m =>
    if root_dir.isPrefixOf key then
      if key.length = root_dir.length ∨ key[root_dir.length]? = some 0x2f then deleteFrom root_dir m
      else (key, e) :: deleteFrom root_dir m
    else (key, e) :: m

/-- `ShvPath::forEachDirAndSubdirsDeleteIf`, deleting every entry it comes across. -/
def deleteDirAndSubdirs (root_dir : Bytes) : ShvSnapshot → ShvSnapshot
  | [] => []
  | (key, e) :: m =>
    if compare key root_dir = .lt then (key, e) :: deleteDirAndSubdirs root_dir m
    else deleteFrom root_dir ((key, e) :: m)

end ShvSnapshot

/-- `metaTypeNameSpaceId() == GlobalNS::ID && metaTypeId() == NodeDrop`. -/
def RpcValue.isNodeDrop (v : RpcValue) : Except String Bool := do
  if (← (v.metaData.valueOf 2).toInt) = 0 then return (← (v.metaData.valueOf 1).toInt) = 6
  else return false

/-- `AbstractShvJournal::addToSnapshot`. -/
def addToSnapshot (snapshot : ShvSnapshot) (entry : ShvJournalEntry) : Except String ShvSnapshot := do
  if entry.domain ≠ ShvJournalEntry.DOMAIN_VAL_CHANGE then return snapshot
  if ← entry.value.isNodeDrop then return snapshot.deleteDirAndSubdirs entry.path
  else return SortedMap.insert entry.path entry snapshot

end LibShv
