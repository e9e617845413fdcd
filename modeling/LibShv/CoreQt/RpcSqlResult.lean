import LibShv.CoreQt.RoundTrip
import LibShv.CponWriter
import LibShv.RpcMessage
import LibShv.RpcValue.As

/-!
# LibShv.CoreQt.RpcSqlResult

Results of SQL statements as values (`coreqt/data/rpcsqlresult.cpp`). One writer has two
readers: `fromRpcValue`, and the constructor that takes a response.
-/

namespace LibShv

/-! ## the text of an error -/

namespace RpcError

/-- `errorCodeToString`. -/
def errorCodeToString (code : Int32) : Bytes :=
  if code = 0 then ascii "NoError"
  else if code = 1 then ascii "InvalidRequest"
  else if code = 2 then ascii "MethodNotFound"
  else if code = 3 then ascii "InvalidParams"
  else if code = 4 then ascii "InternalError"
  else if code = 5 then ascii "ParseError"
  else if code = MethodCallTimeout then ascii "SyncMethodCallTimeout"
  else if code = MethodCallCancelled then ascii "SyncMethodCallCancelled"
  else if code = MethodCallException then ascii "MethodCallException"
  else if code = 11 then ascii "UserIdRequired"
  else if code = Unknown then ascii "Unknown"
  else Decimal.intDigits code.toInt

/-- `RpcError::toString`. -/
def toString (e : RpcError) : Except String Bytes := do
  let message := ((SortedMap.find? 2 e.value.asIMap).getD .invalid).asString
  let ret := errorCodeToString (← e.code) ++ ascii ": " ++ message
  let d := (SortedMap.find? 3 e.value.asIMap).getD .invalid
  if d.isValid then return ret ++ ascii " data: " ++ CponWriter.toCpon [] d
  else return ret

end RpcError

/-- `RpcResponse::errorString`. -/
def RpcMessage.errorString (resp : RpcMessage) : Except String Bytes := do
  if ← resp.error.isValid then resp.error.toString
  else if ← resp.isSuccess then return []
  else if resp.value.isValid then return ascii "Empty RPC message"
  else return ascii "Invalid RPC message"

/-! ## variants read as one of their types -/

namespace QVariant

/-- `toMap`. -/
def toMap : QVariant → QVariantMap
  | .map m => m
  | _ => []

/-- `toList`. -/
def toList : QVariant → QVariantList
  | .list l => l
  | .stringList l => l.map .string
  | _ => []

end QVariant

/-- What Qt makes of a variant of another type, and the name of a type. -/
structure QtConversions extends QtTexts where
  toInt : QVariant → Int32
  toString : QVariant → QString
  typeName : Int32 → QString
  toInt_int : ∀ n, toInt (.int n) = n
  toString_string : ∀ s, toString (.string s) = s

/-! ## fields -/

structure RpcSqlField where
  name : QString
  type : Int32
deriving DecidableEq

section Conversions

variable (qt : QtConversions)

namespace RpcSqlField

def toVariant (fld : RpcSqlField) : QVariant :=
  let ret := QVariantMap.set "name".toList (.string fld.name) []
  let ret := ret.set "type".toList (.int fld.type)
  .map (ret.set "typeName".toList (.string (qt.typeName fld.type)))

def fromVariant (v : QVariant) : RpcSqlField where
  name := qt.toString (v.toMap.value "name".toList)
  type := qt.toInt (v.toMap.value "type".toList)

end RpcSqlField

/-! ## results -/

structure RpcSqlResult where
  numRowsAffected : Int32
  lastInsertId : Int32
  lastError : QString
  fields : List RpcSqlField
  rows : QVariantList

namespace RpcSqlResult

def empty : RpcSqlResult := ⟨0, 0, [], [], []⟩

def isSelect (r : RpcSqlResult) : Bool := !r.fields.isEmpty

def toVariant (r : RpcSqlResult) : QVariant :=
  if r.isSelect then
    let ret := QVariantMap.set "fields".toList (.list (r.fields.map (·.toVariant qt))) []
    .map (ret.set "rows".toList (.list r.rows))
  else
    let ret := QVariantMap.set "numRowsAffected".toList (.int r.numRowsAffected) []
    .map (ret.set "lastInsertId".toList (.int r.lastInsertId))

def toRpcValue (r : RpcSqlResult) : RpcValue := qVariantToRpcValue (r.toVariant qt)

def fromVariant (v : QVariant) : RpcSqlResult :=
  let map := v.toMap
  let flds := (map.value "fields".toList).toList
  if flds.isEmpty then
    { empty with
      numRowsAffected := qt.toInt (map.value "numRowsAffected".toList)
      lastInsertId := qt.toInt (map.value "lastInsertId".toList) }
  else
    { empty with
      fields := flds.map (RpcSqlField.fromVariant qt)
      rows := (map.value "rows".toList).toList }

def fromRpcValue (rv : RpcValue) : RpcSqlResult :=
  fromVariant qt (rpcValueToQVariant qt.toQtTexts rv)

/-- A field as the constructor reads it. -/
def responseField (rv : RpcValue) : Except String RpcSqlField := do
  let name := qt.fromStdString (rv.asMap.valueOr (ascii "name") .invalid).toString
  return ⟨name, ← (rv.asMap.valueOr (ascii "type") .invalid).toInt⟩

/-- The constructor from a response. -/
def ofResponse (resp : RpcMessage) : Except String RpcSqlResult := do
  if ← resp.isSuccess then
    let result := resp.result.asMap
    let fields ← (result.valueOr (ascii "fields") .invalid).asList.mapM (responseField qt)
    let rows := (result.valueOr (ascii "rows") .invalid).asList.map fun rowv =>
      .list (rowv.asList.map (rpcValueToQVariant qt.toQtTexts))
    let numRowsAffected ← (result.valueOr (ascii "numRowsAffected") .invalid).toInt
    -- the writer's key is `lastInsertId`
    let lastInsertId ← (result.valueOr (ascii "lastInserId") .invalid).toInt
    return { empty with numRowsAffected, lastInsertId, fields, rows }
  else
    return { empty with lastError := qt.fromStdString (← resp.errorString) }

end RpcSqlResult

/-! ## what is written -/

theorem toRpcList_eq_map (l : QVariantList) : toRpcList l = l.map qVariantToRpcValue := by
  induction l with
  | nil => rfl
  | cons v l ih => rw [toRpcList, ih, List.map_cons]

theorem toQVariantList_eq_map (vs : List RpcValue) :
    toQVariantList qt.toQtTexts vs = vs.map (rpcValueToQVariant qt.toQtTexts) := by
  induction vs with
  | nil => rfl
  | cons v vs ih => rw [toQVariantList, ih, List.map_cons]

/-- The value of a field. -/
def RpcSqlField.written (fld : RpcSqlField) : RpcValue :=
  .ofVariant (.map [(ascii "name", .ofVariant (.string fld.name.toStdString)),
    (ascii "type", .ofVariant (.int fld.type.toInt64)),
    (ascii "typeName", .ofVariant (.string (qt.typeName fld.type).toStdString))])

theorem RpcSqlField.qVariantToRpcValue_toVariant (fld : RpcSqlField) :
    qVariantToRpcValue (fld.toVariant qt) = fld.written qt := rfl

namespace RpcSqlResult

theorem toRpcValue_of_select {r : RpcSqlResult} (h : r.fields ≠ []) :
    r.toRpcValue qt = .ofVariant (.map
      [(ascii "fields", .ofVariant (.list (r.fields.map (·.written qt)))),
        (ascii "rows", .ofVariant (.list (r.rows.map qVariantToRpcValue)))]) := by
  have hselect : r.isSelect = true := by
    rw [isSelect, Bool.not_eq_true', List.isEmpty_eq_false_iff]
    exact h
  have hfields : toRpcList (r.fields.map (·.toVariant qt)) = r.fields.map (·.written qt) := by
    rw [toRpcList_eq_map, List.map_map]
    rfl
  rw [toRpcValue, toVariant, if_pos hselect, ← hfields, ← toRpcList_eq_map]
  rfl

theorem toRpcValue_of_statement {r : RpcSqlResult} (h : r.fields = []) :
    r.toRpcValue qt = .ofVariant (.map
      [(ascii "lastInsertId", .ofVariant (.int r.lastInsertId.toInt64)),
        (ascii "numRowsAffected", .ofVariant (.int r.numRowsAffected.toInt64))]) := by
  have hselect : ¬ r.isSelect = true := by simp [isSelect, h]
  rw [toRpcValue, toVariant, if_neg hselect]
  rfl

end RpcSqlResult

/-! ## what is read -/

/-- A cell of a row. -/
def QVariant.IsCell : QVariant → Prop
  | .nullptr | .bool _ | .int _ | .double _ | .string _ | .byteArray _ => True
  | _ => False

/-- A row of cells. -/
def QVariant.IsRow (v : QVariant) : Prop := ∃ cells, v = .list cells ∧ ∀ c ∈ cells, c.IsCell

theorem QVariant.IsCell.roundTrip {c : QVariant} (h : c.IsCell) :
    rpcValueToQVariant qt.toQtTexts (qVariantToRpcValue c) = c := by
  cases c <;> simp [QVariant.IsCell] at h <;>
    simp [qVariantToRpcValue, RpcValue.ofVariant, rpcValueToQVariant, variantToQVariant,
      qt.fromStdString_toStdString]

/-- What is read of every element as it was is read of the list as it was. -/
theorem map_roundTrip {l : QVariantList}
    (h : ∀ v ∈ l, rpcValueToQVariant qt.toQtTexts (qVariantToRpcValue v) = v) :
    (l.map qVariantToRpcValue).map (rpcValueToQVariant qt.toQtTexts) = l := by
  rw [List.map_map]
  exact (List.map_congr_left h).trans (List.map_id l)

/-- The value of a row and the cells read of it. -/
theorem QVariant.IsRow.read {row : QVariant} (h : row.IsRow) :
    .list ((qVariantToRpcValue row).asList.map (rpcValueToQVariant qt.toQtTexts)) = row := by
  obtain ⟨cells, rfl, hcells⟩ := h
  refine congrArg QVariant.list ?_
  change (toRpcList cells).map _ = cells
  rw [toRpcList_eq_map]
  exact map_roundTrip qt fun c hc => (hcells c hc).roundTrip qt

theorem QVariant.IsRow.roundTrip {row : QVariant} (h : row.IsRow) :
    rpcValueToQVariant qt.toQtTexts (qVariantToRpcValue row) = row := by
  refine Eq.trans ?_ (h.read qt)
  obtain ⟨cells, rfl, -⟩ := h
  exact congrArg QVariant.list (toQVariantList_eq_map qt _)

/-- A key of the source comes back as the text that it is. -/
theorem fromStdString_key {bs : Bytes} {key : QString} (h : key.toStdString = bs) :
    qt.fromStdString bs = key := by rw [← h, qt.fromStdString_toStdString]

theorem RpcSqlField.fromVariant_written (fld : RpcSqlField) :
    fromVariant qt (rpcValueToQVariant qt.toQtTexts (fld.written qt)) = fld := by
  have hread : rpcValueToQVariant qt.toQtTexts (fld.written qt) = .map
      [("name".toList, .string fld.name), ("type".toList, .int fld.type),
        ("typeName".toList, .string (qt.typeName fld.type))] := by
    simp only [written, RpcValue.ofVariant, rpcValueToQVariant, variantToQVariant, toQVariantMap,
      @fromStdString_key qt (ascii "name") "name".toList rfl,
      @fromStdString_key qt (ascii "type") "type".toList rfl,
      @fromStdString_key qt (ascii "typeName") "typeName".toList rfl,
      qt.fromStdString_toStdString, Int32.toInt32_toInt64]
    rfl
  rw [hread, fromVariant]
  change (⟨qt.toString (.string fld.name), qt.toInt (.int fld.type)⟩ : RpcSqlField) = fld
  rw [qt.toString_string, qt.toInt_int]

theorem responseField_written (fld : RpcSqlField) :
    RpcSqlResult.responseField qt (fld.written qt) = .ok fld := by
  change Except.ok (⟨qt.fromStdString fld.name.toStdString, fld.type.toInt64.toInt32⟩ :
    RpcSqlField) = .ok fld
  rw [qt.fromStdString_toStdString, Int32.toInt32_toInt64]

theorem mapM_responseField_written (flds : List RpcSqlField) :
    (flds.map (·.written qt)).mapM (RpcSqlResult.responseField qt) = .ok flds := by
  induction flds with
  | nil => rfl
  | cons fld flds ih =>
    rw [List.map_cons, List.mapM_cons, responseField_written, ih]
    rfl

namespace RpcSqlResult

/-- The same data, whatever the text of the error. -/
def SameData (r r' : RpcSqlResult) : Prop :=
  r.fields = r'.fields ∧ r.rows = r'.rows ∧ r.numRowsAffected = r'.numRowsAffected ∧
    r.lastInsertId = r'.lastInsertId

/-- The result of a select, which has fields, or of a statement of another kind. -/
structure OfStatement (r : RpcSqlResult) : Prop where
  rows : ∀ row ∈ r.rows, row.IsRow
  no_rows : r.fields = [] → r.rows = []

theorem fromRpcValue_of_select {r : RpcSqlResult} (h : r.fields ≠ [])
    (hrows : ∀ row ∈ r.rows, row.IsRow) :
    fromRpcValue qt (r.toRpcValue qt) = { empty with fields := r.fields, rows := r.rows } := by
  have hread : rpcValueToQVariant qt.toQtTexts (r.toRpcValue qt) = .map
      [("fields".toList, .list ((r.fields.map (·.written qt)).map
        (rpcValueToQVariant qt.toQtTexts))), ("rows".toList, .list r.rows)] := by
    simp only [toRpcValue_of_select qt h, RpcValue.ofVariant, rpcValueToQVariant,
      variantToQVariant, toQVariantMap, toQVariantList_eq_map,
      @fromStdString_key qt (ascii "fields") "fields".toList rfl,
      @fromStdString_key qt (ascii "rows") "rows".toList rfl,
      map_roundTrip qt fun row hrow => (hrows row hrow).roundTrip qt]
    rfl
  have hflds : ((r.fields.map (·.written qt)).map (rpcValueToQVariant qt.toQtTexts)).map
      (RpcSqlField.fromVariant qt) = r.fields := by
    rw [List.map_map, List.map_map]
    exact (List.map_congr_left fun fld _ => fld.fromVariant_written qt).trans (List.map_id _)
  rw [fromRpcValue, hread, fromVariant]
  change (if List.isEmpty ((r.fields.map (·.written qt)).map (rpcValueToQVariant qt.toQtTexts))
    then _ else _) = _
  rw [if_neg (by simpa using h)]
  exact congrArg (fun flds => ({ empty with fields := flds, rows := r.rows } : RpcSqlResult)) hflds

theorem fromRpcValue_of_statement {r : RpcSqlResult} (h : r.fields = []) :
    fromRpcValue qt (r.toRpcValue qt) =
      { empty with numRowsAffected := r.numRowsAffected, lastInsertId := r.lastInsertId } := by
  have hread : rpcValueToQVariant qt.toQtTexts (r.toRpcValue qt) = .map
      [("lastInsertId".toList, .int r.lastInsertId),
        ("numRowsAffected".toList, .int r.numRowsAffected)] := by
    simp only [toRpcValue_of_statement qt h, RpcValue.ofVariant, rpcValueToQVariant,
      variantToQVariant, toQVariantMap,
      @fromStdString_key qt (ascii "lastInsertId") "lastInsertId".toList rfl,
      @fromStdString_key qt (ascii "numRowsAffected") "numRowsAffected".toList rfl,
      Int32.toInt32_toInt64]
    rfl
  rw [fromRpcValue, hread, fromVariant]
  change ({ empty with
    numRowsAffected := qt.toInt (.int r.numRowsAffected)
    lastInsertId := qt.toInt (.int r.lastInsertId) } : RpcSqlResult) = _
  rw [qt.toInt_int, qt.toInt_int]

theorem ofResponse_of_select {r : RpcSqlResult} (h : r.fields ≠ [])
    (hrows : ∀ row ∈ r.rows, row.IsRow) {resp : RpcMessage} (hresp : resp.isSuccess = .ok true)
    (hresult : resp.result = r.toRpcValue qt) :
    ofResponse qt resp = .ok { empty with fields := r.fields, rows := r.rows } := by
  have hread : (r.rows.map qVariantToRpcValue).map (fun rowv => QVariant.list
      (rowv.asList.map (rpcValueToQVariant qt.toQtTexts))) = r.rows := by
    rw [List.map_map]
    exact (List.map_congr_left fun row hrow => (hrows row hrow).read qt).trans (List.map_id _)
  rw [ofResponse, hresp, hresult, toRpcValue_of_select qt h]
  change (do
    let fields ← (r.fields.map (·.written qt)).mapM (responseField qt)
    let rows := (r.rows.map qVariantToRpcValue).map fun rowv : RpcValue =>
      QVariant.list (rowv.asList.map (rpcValueToQVariant qt.toQtTexts))
    return { empty with fields, rows } : Except String RpcSqlResult) = _
  rw [mapM_responseField_written, hread]
  rfl

/-- The insert id is looked up under another key than it is written under. -/
theorem ofResponse_of_statement {r : RpcSqlResult} (h : r.fields = []) {resp : RpcMessage}
    (hresp : resp.isSuccess = .ok true) (hresult : resp.result = r.toRpcValue qt) :
    ofResponse qt resp = .ok { empty with numRowsAffected := r.numRowsAffected } := by
  rw [ofResponse, hresp, hresult, toRpcValue_of_statement qt h]
  change Except.ok ({ empty with numRowsAffected := r.numRowsAffected.toInt64.toInt32 } :
    RpcSqlResult) = _
  rw [Int32.toInt32_toInt64]

/-- Both readers give the data back. -/
def Survives (r : RpcSqlResult) : Prop :=
  (fromRpcValue qt (r.toRpcValue qt)).SameData r ∧
    ∀ resp : RpcMessage, resp.isSuccess = .ok true → resp.result = r.toRpcValue qt →
      ∃ r', ofResponse qt resp = .ok r' ∧ r'.SameData r

/-- The response that has nothing but a result. -/
def response (rv : RpcValue) : RpcMessage := ⟨.ofVariant (.imap [(Key_Result, rv)]), .inl rfl⟩

theorem isSuccess_response {rv : RpcValue} (h : rv.isValid = true) :
    (response rv).isSuccess = .ok true := by
  have hresult : (response rv).result = rv := rfl
  rw [RpcMessage.isSuccess, hresult, if_pos h]
  rfl

theorem survives_select_iff {r : RpcSqlResult} (h : r.fields ≠ [])
    (hrows : ∀ row ∈ r.rows, row.IsRow) :
    r.Survives qt ↔ r.numRowsAffected = 0 ∧ r.lastInsertId = 0 := by
  rw [Survives, fromRpcValue_of_select qt h hrows]
  constructor
  · rintro ⟨⟨-, -, hnum, hid⟩, -⟩
    exact ⟨hnum.symm, hid.symm⟩
  · rintro ⟨hnum, hid⟩
    have hsame : SameData { empty with fields := r.fields, rows := r.rows } r :=
      ⟨rfl, rfl, hnum.symm, hid.symm⟩
    exact ⟨hsame, fun resp hresp hresult =>
      ⟨_, ofResponse_of_select qt h hrows hresp hresult, hsame⟩⟩

theorem survives_statement_iff {r : RpcSqlResult} (h : r.fields = []) (hrows : r.rows = []) :
    r.Survives qt ↔ r.lastInsertId = 0 := by
  rw [Survives, fromRpcValue_of_statement qt h]
  constructor
  · rintro ⟨-, hread⟩
    have hvalid : (r.toRpcValue qt).isValid = true := by rw [toRpcValue_of_statement qt h]; rfl
    obtain ⟨r', hr', -, -, -, hid⟩ := hread (response (r.toRpcValue qt))
      (isSuccess_response hvalid) rfl
    rw [ofResponse_of_statement qt h (isSuccess_response hvalid) rfl, Except.ok.injEq] at hr'
    rw [← hid, ← hr']
    rfl
  · intro hid
    refine ⟨⟨h.symm, hrows.symm, rfl, rfl⟩, fun resp hresp hresult => ?_⟩
    exact ⟨_, ofResponse_of_statement qt h hresp hresult, h.symm, hrows.symm, rfl, hid.symm⟩

/-- Both readers give the data back if and only if there is no insert id, and no count of rows
beside fields. -/
theorem survives_result_iff (r : RpcSqlResult) (h : r.OfStatement) :
    r.Survives qt ↔ r.lastInsertId = 0 ∧ (r.fields ≠ [] → r.numRowsAffected = 0) := by
  by_cases hfields : r.fields = []
  · rw [survives_statement_iff qt hfields (h.no_rows hfields)]
    exact ⟨fun hid => ⟨hid, fun hne => absurd hfields hne⟩, fun hid => hid.1⟩
  · rw [survives_select_iff qt hfields h.rows]
    exact ⟨fun hzero => ⟨hzero.2, fun _ => hzero.1⟩, fun hzero => ⟨hzero.2 hfields, hzero.1⟩⟩

end RpcSqlResult

end Conversions

namespace RpcSqlResult

/-- The conversions of an integer and of a text; a variant of another type gives nothing. -/
def plainConversions : QtConversions where
  toQtTexts := .ofDecoder
  toInt
    | .int n => n
    | _ => 0
  toString
    | .string s => s
    | _ => []
  typeName type := if type = 10 then "QString".toList else "int".toList
  toInt_int _ := rfl
  toString_string _ := rfl

/-- A row of every kind of cell. -/
def selectSample : RpcSqlResult :=
  ⟨0, 0, [], [⟨"id".toList, 2⟩, ⟨"name".toList, 10⟩],
    [.list [.int 1, .string "a".toList, .nullptr, .bool true, .double 0, .byteArray [255]]]⟩

theorem ofStatement_selectSample : selectSample.OfStatement where
  rows row hrow := by
    rw [List.mem_singleton.mp hrow]
    exact ⟨_, rfl, by simp [QVariant.IsCell]⟩
  no_rows h := by cases h

theorem survives_select : selectSample.OfStatement ∧ selectSample.Survives plainConversions :=
  ⟨ofStatement_selectSample, (survives_result_iff plainConversions selectSample
    ofStatement_selectSample).mpr ⟨rfl, fun _ => rfl⟩⟩

/-- An insert id is lost in the response. -/
theorem not_survives :
    ¬ ∀ (qt : QtConversions) (r : RpcSqlResult), r.OfStatement → r.Survives qt := by
  intro h
  have hsurvives := h plainConversions { empty with numRowsAffected := 1, lastInsertId := 7 }
    ⟨fun row hrow => absurd hrow List.not_mem_nil, fun _ => rfl⟩
  rw [survives_statement_iff plainConversions rfl rfl] at hsurvives
  exact absurd hsurvives (by decide)

end RpcSqlResult

end LibShv
