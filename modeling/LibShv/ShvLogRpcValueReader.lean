import LibShv.GetLog

/-!
# LibShv.ShvLogRpcValueReader

`ShvLogRpcValueReader` (`shvlogrpcvaluereader.cpp`): the entries of a log, row after
row. It is modelled without exceptions, where a row that is not an entry is skipped.
-/

namespace LibShv.ShvLogRpcValueReader

/-- `unmap_path`: an integer is the number of a path, and an unknown number is no path. -/
def unmapPath (pathDict : RpcIMap) (p : RpcValue) : Except String Bytes :=
  match p.value with
  | .int _ => do
    match SortedMap.find? (← p.toInt) pathDict with
    | some path => return path.asString
    | none => return []
  | _ => .ok p.asString

/-- The entries that `next` goes through. A row without a time or a path gives an empty entry. -/
def entries (pathDict : RpcIMap) : RpcList → Except String (List ShvJournalEntry)
  | [] => .ok []
  | row :: rows => do
    let entry ← ShvJournalEntry.fromRpcValueList row.asList (unmapPath pathDict)
    let rest ← entries pathDict rows
    return if entry.path = [] then rest else entry :: rest

end LibShv.ShvLogRpcValueReader
