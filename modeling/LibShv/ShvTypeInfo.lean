import LibShv.AccessGrant
import LibShv.CponWriter
import LibShv.Lib.Fueled
import LibShv.LocalFSNode
import LibShv.RpcMessage
import LibShv.RpcValue.As
import LibShv.RpcValue.Compare
import LibShv.ShvPath

/-!
# LibShv.ShvTypeInfo

Descriptions of the types and properties of devices (`shvtypeinfo.cpp`), read from
a document: a tree of nodes, or the tables of a saved type info.

A function that calls itself through names has fuel for the depth of its calls, and
has no result when it is used up. A conversion of a number that is not one throws.
The access level of a method that sets none is indeterminate; here it is `None`.
-/

namespace LibShv

namespace RpcValue

/-- `toUInt64`. -/
def toUInt64 (v : RpcValue) : Except String UInt64 := (·.toUInt64) <$> v.toInt64

/-- `toUInt`. -/
def toUInt (v : RpcValue) : Except String UInt32 := (·.toUInt64.toUInt32) <$> v.toInt64

/-- `toDouble`. -/
def toDouble (v : RpcValue) : Float :=
  match v.value with
  | .double bits => Float.ofBits bits
  | .int n => n.toFloat
  | .uint n => n.toFloat
  | .decimal d => d.toDouble
  | _ => 0

/-- `toDateTime`. -/
def toDateTime (v : RpcValue) : RpcDateTime :=
  match v.value with
  | .dateTime dt => dt
  | _ => ⟨0, 0⟩

def isDecimal (v : RpcValue) : Bool :=
  match v.value with
  | .decimal _ => true
  | _ => false

def isNull (v : RpcValue) : Bool :=
  match v.value with
  | .null => true
  | _ => false

def isInt (v : RpcValue) : Bool :=
  match v.value with
  | .int _ => true
  | _ => false

/-- `metaValue` under a string key. -/
def metaValue (v : RpcValue) (key : Bytes) : RpcValue := RpcMap.valueOr v.metaData.sValues key .invalid

end RpcValue

/-- `RpcDecimal::fromDouble`. -/
def RpcDecimal.fromDouble (d : Float) (round_to_dec_places : Int32) : RpcDecimal :=
  let places := round_to_dec_places.toInt
  let d := if 0 < places then places.toNat.repeat (· * 10) d else (-places).toNat.repeat (· / 10) d
  ⟨d.round.toInt64, -round_to_dec_places⟩

namespace RpcMap

/-- `RpcMap::value`. -/
def get (m : RpcMap) (key : String) : RpcValue := m.valueOr (ascii key) .invalid

/-- `RpcMap::setValue`: an invalid value removes the key. -/
def setValue (m : RpcMap) (key : String) (val : RpcValue) : RpcMap :=
  if val.isValid then SortedMap.insert (ascii key) val m else SortedMap.erase (ascii key) m

def hasKey (m : RpcMap) (key : String) : Bool := (SortedMap.find? (ascii key) m).isSome

/-- `std::map::merge`: the keys that are there stay. -/
def merge (m m' : RpcMap) : RpcMap :=
  m'.foldl (fun m e => if (SortedMap.find? e.1 m).isSome then m else SortedMap.insert e.1 e.2 m) m

end RpcMap

def text (s : Bytes) : RpcValue := .ofVariant (.string s)

/-! ## methods -/

/-- `ShvMethodDescr`, a `MetaMethod`. -/
structure ShvMethodDescr where
  name : Bytes := []
  flags : UInt32 := 0
  paramType : Bytes := []
  resultType : Bytes := []
  accessLevel : AccessLevel := .None
  signals : RpcMap := []
  label : Bytes := []
  description : Bytes := []
  extra : RpcMap := []

namespace ShvMethodDescr

def stringOr (old : Bytes) (rv : RpcValue) : Bytes := if rv.isString then rv.asString else old

def mapOr (old : RpcMap) (rv : RpcValue) : RpcMap := if rv.isMap then rv.asMap else old

def levelOf (level : Option AccessLevel) : AccessLevel := level.getD .None

def levelOr (old : AccessLevel) (rv : RpcValue) : AccessLevel :=
  if rv.isString then levelOf (accessLevelFromAccessString rv.asString) else old

/-- `applyAttributesMap`. -/
def applyAttributesMap (mm : ShvMethodDescr) (map : RpcMap) : Except String ShvMethodDescr := do
  let flags ← if (map.get "flags").isValid then (·.toUInt32) <$> (map.get "flags").toInt
    else pure mm.flags
  let level := levelOr (levelOr mm.accessLevel (map.get "access")) (map.get "accessGrant")
  let level ← if (map.get "accessLevel").isInt then
      (levelOf <| accessLevelFromInt ·) <$> (map.get "accessLevel").toInt
    else pure level
  pure { mm with
    name := stringOr mm.name (map.get "name")
    flags := flags
    paramType := stringOr mm.paramType (map.get "param")
    resultType := stringOr mm.resultType (map.get "result")
    accessLevel := level
    signals := mapOr mm.signals (map.get "signals")
    label := stringOr mm.label (map.get "label")
    description := stringOr mm.description (map.get "description")
    extra := mapOr mm.extra (map.get "tags") }

/-- `applyAttributesIMap`. -/
def applyAttributesIMap (mm : ShvMethodDescr) (map : RpcIMap) : Except String ShvMethodDescr := do
  let get (key : Int32) : RpcValue := (SortedMap.find? key map).getD .invalid
  let flags ← (get 2).toInt
  let level ← if (get 5).isInt then (levelOf <| accessLevelFromInt ·) <$> (get 5).toInt
    else pure (levelOr mm.accessLevel (get 5))
  pure { mm with
    name := (get 1).asString
    flags := flags.toUInt32
    paramType := (get 3).asString
    resultType := (get 4).asString
    accessLevel := level
    signals := (get 6).asMap
    extra := mapOr mm.extra (get 7)
    description := if (get 7).isMap then ((get 7).asMap.get "description").asString else mm.description
    label := if (get 7).isMap then ((get 7).asMap.get "label").asString else mm.label }

/-- `MetaMethod::fromRpcValue`, from the default-constructed method on. Its access level is not
initialized. -/
def fromRpcValueInto (ret : ShvMethodDescr) (rv : RpcValue) : Except String ShvMethodDescr :=
  let nth (i : Nat) : RpcValue := rv.asList[i]?.getD .invalid
  if rv.isString then pure { ret with name := rv.asString }
  else if rv.isList then do
    let flags ← (nth 2).toUInt
    applyAttributesMap
      { ret with
        name := (nth 0).asString
        flags := flags
        accessLevel := levelOf (accessLevelFromAccessString (nth 3).asString)
        description := (nth 4).asString } (nth 5).asMap
  else if rv.isMap then applyAttributesMap ret rv.asMap
  else if rv.isIMap then applyAttributesIMap ret rv.asIMap
  else pure ret

/-- `MetaMethod::fromRpcValue`. -/
def fromRpcValue (rv : RpcValue) : Except String ShvMethodDescr := fromRpcValueInto {} rv

/-- `MetaMethod::toRpcValue`. -/
def toRpcValue (mm : ShvMethodDescr) : RpcValue := .ofVariant <| .imap
  [(1, text mm.name), (2, .ofVariant (.uint mm.flags.toUInt64)), (3, text mm.paramType),
    (4, text mm.resultType), (5, .ofVariant (.int mm.accessLevel.toInt.toInt64)),
    (6, .ofVariant (.map mm.signals)),
    (7, .ofVariant (.map (mm.extra.foldl (fun m e => SortedMap.insert e.1 e.2 m)
      [(ascii "description", text mm.description), (ascii "label", text mm.label)])))]

end ShvMethodDescr

/-! ## descriptions -/

/-- `ShvDescriptionBase`, and the descriptions of types, fields and properties that have
no other data. -/
structure ShvDescr where
  m_data : RpcValue

/-- `ShvTypeDescr::Type`. -/
inductive ShvType where
  | Invalid | BitField | Enum | Bool | UInt | Int | Decimal | Double | String | DateTime | List
  | Map | IMap
deriving DecidableEq

namespace ShvTypeDescr

/-- The types with their names, in the order of their numbers. -/
def names : List (ShvType × String) :=
  [(.Invalid, ""), (.BitField, "BitField"), (.Enum, "Enum"), (.Bool, "Bool"), (.UInt, "UInt"),
    (.Int, "Int"), (.Decimal, "Decimal"), (.Double, "Double"), (.String, "String"),
    (.DateTime, "DateTime"), (.List, "List"), (.Map, "Map"), (.IMap, "IMap")]

/-- A number that is cast to a type; some numbers are none. -/
def typeOfInt (n : Int32) : Option ShvType :=
  if 0 ≤ n then (names[n.toInt.toNat]?).map (·.1) else none

def intOfType (t : ShvType) : Int32 := Int32.ofNat (names.findIdx (·.1 = t))

/-- `typeToString`. -/
def typeToString (t : Option ShvType) : Bytes :=
  ascii (((names.find? fun e => some e.1 = t).map (·.2)).getD "")

/-- `typeFromString`. -/
def typeFromString (s : Bytes) : ShvType := ((names.find? fun e => ascii e.2 = s).map (·.1)).getD .Invalid

end ShvTypeDescr

namespace ShvDescr

def isValid (d : ShvDescr) : Bool := d.m_data.asMap ≠ []

def dataValue (d : ShvDescr) (key : String) : RpcValue := d.m_data.asMap.get key

def setDataValue (d : ShvDescr) (key : String) (val : RpcValue) : ShvDescr :=
  if d.m_data.isMap then ⟨.mk d.m_data.metaData (.map (d.m_data.asMap.setValue key val))⟩
  else ⟨.ofVariant (.map (RpcMap.setValue [] key val))⟩

/-- `mergeTags`. -/
def mergeTags (map : RpcMap) : RpcMap :=
  if map.hasKey "tags" then RpcMap.merge (SortedMap.erase (ascii "tags") map) (map.get "tags").asMap
  else map

/-- `setData` of a new description; `fromRpcValue` of a field. -/
def ofData (data : RpcValue) : ShvDescr :=
  if data.isMap then ⟨.ofVariant (.map (mergeTags data.asMap))⟩ else ⟨.invalid⟩

def name (d : ShvDescr) : Bytes := (d.dataValue "name").asString

def setName (d : ShvDescr) (n : Bytes) : ShvDescr := d.setDataValue "name" (text n)

def alarm (d : ShvDescr) : Bytes := (d.dataValue "alarm").asString

def stateAlarm (d : ShvDescr) : Bytes := (d.dataValue "stateAlarm").asString

def alarmLevel (d : ShvDescr) : Except String Int32 := (d.dataValue "alarmLevel").toInt

def description (d : ShvDescr) : Bytes := (d.dataValue "description").asString

def label (d : ShvDescr) : Bytes := (d.dataValue "label").asString

def decimalPlaces (d : ShvDescr) : Except String Int32 := (d.dataValue "decPlaces").toInt

def «type» (d : ShvDescr) : Except String (Option ShvType) :=
  ShvTypeDescr.typeOfInt <$> (d.dataValue "type").toInt

def setType (d : ShvDescr) (t : ShvType) : ShvDescr :=
  d.setDataValue "type" (.ofVariant (.int (ShvTypeDescr.intOfType t).toInt64))

def typeName (d : ShvDescr) : Except String Bytes :=
  let tn := (d.dataValue "typeName").asString
  if tn ≠ [] then pure tn else ShvTypeDescr.typeToString <$> d.type

def setTypeName (d : ShvDescr) (type_name : Bytes) : Except String ShvDescr := do
  let d := d.setDataValue "typeName" (text type_name)
  let t ← d.type
  pure (if t = some .Invalid then d.setType (ShvTypeDescr.typeFromString type_name) else d)

def bitRange (d : ShvDescr) : RpcValue := d.dataValue "value"

def bitRangePair (d : ShvDescr) : Except String (UInt32 × UInt32) :=
  if d.bitRange.isList then do
    let bit_no1 ← ((d.bitRange.asList[0]?).getD RpcValue.invalid).toUInt
    let bit_no2 ← ((d.bitRange.asList[1]?).getD RpcValue.invalid).toUInt
    pure (bit_no1, if bit_no2 < bit_no1 then bit_no1 else bit_no2)
  else do
    let bit_no ← d.bitRange.toUInt
    pure (bit_no, bit_no)

/-- A shift by more bits than there are takes the lowest six bits of the number, as the
processor does. -/
def bitfieldValue (d : ShvDescr) (uval : UInt64) : Except String RpcValue :=
  if d.isValid then do
    let (bit_no1, bit_no2) ← d.bitRangePair
    let mask := ~~~ ((~~~ (0 : UInt64)) <<< (bit_no2 + 1).toUInt64)
    let uval := (uval &&& mask) >>> bit_no1.toUInt64
    pure (.ofVariant (if bit_no1 = bit_no2 then .bool (uval ≠ 0) else .uint uval))
  else pure .invalid

def fields (d : ShvDescr) : List ShvDescr := (d.dataValue "fields").asList.map ofData

def field (d : ShvDescr) (field_name : Bytes) : ShvDescr :=
  (d.fields.find? (·.name = field_name)).getD ⟨.invalid⟩

/-- `ShvTypeDescr(type_name)`. -/
def ofTypeName (type_name : Bytes) : ShvDescr :=
  (((ShvDescr.mk (.ofVariant (.map []))).setType (ShvTypeDescr.typeFromString type_name)).setDataValue "fields"
    (.ofVariant (.list []))).setDataValue "sampleType" (.ofVariant (.int 1))

/-- An obsolete key for the name of the type. -/
def setObsoleteTypeName (key : String) (d : ShvDescr) : Except String ShvDescr := do
  let t ← d.type
  if t = some .Invalid ∧ (d.dataValue key).isString then d.setTypeName (d.dataValue key).asString
  else pure d

/-- `sampleTypeFromString`. -/
def sampleTypeFromString (s : Bytes) : Int64 :=
  if ["2", "D", "Discrete", "discrete"].any fun t => s = ascii t then 2 else 1

/-- `ShvTypeDescr::fromRpcValue`. A sample type of zero counts as continuous already. -/
def typeFromRpcValue (v : RpcValue) : Except String ShvDescr := do
  let map := SortedMap.erase (ascii "fields") v.asMap
  let fields := (v.asMap.get "fields").asList.map fun rv =>
    RpcValue.ofVariant (.map (mergeTags rv.asMap))
  let d : ShvDescr := ⟨.ofVariant (.map (SortedMap.insert (ascii "fields")
    (.ofVariant (.list fields)) (mergeTags map)))⟩
  let d ← if (d.dataValue "typeName").isString then d.setTypeName (d.dataValue "typeName").asString
    else pure d
  let d ← setObsoleteTypeName "name" d
  let d ← setObsoleteTypeName "type" d
  let d := if (d.dataValue "sampleType").isString then
      d.setDataValue "sampleType"
        (.ofVariant (.int (sampleTypeFromString (d.dataValue "sampleType").asString)))
    else d
  if d.isValid then
    let _ ← (d.dataValue "sampleType").toInt
    pure d
  else pure d

/-- The tags of a property. -/
def knownTags : List String :=
  ["deviceType", "name", "typeName", "label", "description", "unit", "methods", "autoload",
    "autorefresh", "monitored", "monitorOptions", "nocache", "sampleType", "alarm", "stateAlarm",
    "alarmLevel", "listTypeName"]

def isKnownTag (key : Bytes) : Bool := knownTags.any fun tag => key = ascii tag

/-- `ShvPropertyDescr::fromRpcValue`: the description, and the other tags. -/
def propertyFromRpcValue (v : RpcValue) : ShvDescr × RpcMap :=
  (ofData (.ofVariant (.map (v.asMap.filter fun e => isKnownTag e.1 ∧ e.1 ≠ ascii "deviceType"))),
    v.asMap.filter fun e => ¬ isKnownTag e.1)

end ShvDescr

/-- `ShvDeviceDescription`. -/
structure ShvDeviceDescription where
  properties : List ShvDescr
  restrictionOfDevice : Bytes
  siteSpecificLocalization : Bool

namespace ShvDeviceDescription

def empty : ShvDeviceDescription := ⟨[], [], false⟩

/-- `ShvDeviceDescription::fromRpcValue`. -/
def fromRpcValue (v : RpcValue) : ShvDeviceDescription where
  properties := (v.asMap.get "properties").asList.map fun rv => (ShvDescr.propertyFromRpcValue rv).1
  restrictionOfDevice := (v.asMap.get "restrictionOfDevice").asString
  siteSpecificLocalization := (v.asMap.get "siteSpecificLocalization").toBool

def findProperty (d : ShvDeviceDescription) (name : Bytes) : Option ShvDescr :=
  d.properties.find? (·.name = name)

/-- `findLongestPropertyPrefix`: the last one of the longest. -/
def findLongestPropertyPrefix (d : ShvDeviceDescription) (name : Bytes) : Option ShvDescr :=
  d.properties.foldl
    (fun ret p =>
      if startsWithPath name p.name ∧ (ret.map (·.name.length)).getD 0 ≤ p.name.length then some p
      else ret) none

end ShvDeviceDescription

/-! ## the tables -/

/-- `ShvTypeInfo`. -/
structure ShvTypeInfo where
  types : List (Bytes × ShvDescr) := []
  devicePaths : List (Bytes × Bytes) := []
  deviceDescriptions : List (Bytes × ShvDeviceDescription) := []
  extraTags : RpcMap := []
  systemPathsRoots : List (Bytes × Bytes) := []
  blacklistedPaths : RpcMap := []
  propertyDeviations : List (Bytes × ShvDescr) := []

namespace ShvTypeInfo

/-- `findTypeDescription`. -/
def findTypeDescription (ti : ShvTypeInfo) (type_name : Bytes) : ShvDescr :=
  (SortedMap.find? type_name ti.types).getD (ShvDescr.ofTypeName type_name)

/-- A path without its last part. -/
def cutLastPart (path : Bytes) : Bytes :=
  ((path.reverse.dropWhile (· ≠ SHV_PATH_DELIM)).drop 1).reverse

/-- `find_longest_prefix`, which looks for a path at most as often as it has characters,
and for the empty one. -/
def findLongestPrefix (map : List (Bytes × α)) : Nat → Bytes → Option (Bytes × α)
  | 0, _ => none
  | n + 1, path =>
    match SortedMap.find? path map with
    | some x => some (path, x)
    | none => if path = [] then none else findLongestPrefix map n (cutLastPart path)

def cutPrefix (path pre : Bytes) : Bytes := if pre = [] then path else path.drop (pre.length + 1)

def cutSufix (path post : Bytes) : Bytes :=
  if post = [] then path else path.take (path.length - post.length - 1)

/-- `findDeviceType`. -/
def findDeviceType (ti : ShvTypeInfo) (shv_path : Bytes) : Bytes × Bytes × Bytes :=
  match findLongestPrefix ti.devicePaths (shv_path.length + 1) shv_path with
  | none => ([], [], [])
  | some (pre, device_type) => (pre, device_type, cutPrefix shv_path pre)

/-- `findPropertyDescription`. -/
def findPropertyDescription (ti : ShvTypeInfo) (device_type property_path : Bytes) :
    ShvDescr × Bytes :=
  match (SortedMap.find? device_type ti.deviceDescriptions).bind
      (·.findLongestPropertyPrefix property_path) with
  | none => (⟨.invalid⟩, [])
  | some d => (d, cutPrefix property_path d.name)

/-- `ShvTypeInfo::PathInfo`. -/
structure PathInfo where
  devicePath : Bytes
  deviceType : Bytes
  propertyDescription : ShvDescr
  fieldPath : Bytes

/-- `pathInfo`. -/
def pathInfo (ti : ShvTypeInfo) (shv_path : Bytes) : PathInfo :=
  let (device_path, device_type, property_path) := ti.findDeviceType shv_path
  match findLongestPrefix ti.propertyDeviations (shv_path.length + 1) shv_path with
  | some (own_property_path, d) =>
    let field_path := cutPrefix shv_path own_property_path
    let d := if d.isValid then d.setName (cutSufix (cutPrefix shv_path device_path) field_path) else d
    ⟨device_path, device_type, d, field_path⟩
  | none =>
    let (d, field_path) := ti.findPropertyDescription device_type property_path
    if d.isValid then ⟨device_path, device_type, d, field_path⟩
    else ⟨device_path, device_type, ⟨.invalid⟩, []⟩

/-- `setExtraTags`. -/
def setExtraTags (ti : ShvTypeInfo) (node_path : Bytes) (tags : RpcValue) : ShvTypeInfo :=
  { ti with
    extraTags := if tags.isValid then SortedMap.insert node_path tags ti.extraTags
      else SortedMap.erase node_path ti.extraTags }

/-- `setBlacklist`. A path that is listed already keeps its value. -/
def setBlacklist (ti : ShvTypeInfo) (shv_path : Bytes) (blacklist : RpcValue) : ShvTypeInfo :=
  let listed := blacklist.asList.foldl (fun m path =>
    RpcMap.merge m [(joinPath shv_path path.asString, .invalid)]) ti.blacklistedPaths
  { ti with
    blacklistedPaths := blacklist.asMap.foldl
      (fun m e => SortedMap.insert (joinPath shv_path e.1) e.2 m) listed }

/-- `setPropertyDeviation`. -/
def setPropertyDeviation (ti : ShvTypeInfo) (shv_path : Bytes) (d : ShvDescr) : ShvTypeInfo :=
  { ti with propertyDeviations := SortedMap.insert shv_path d ti.propertyDeviations }

/-! ## the tree of nodes -/

/-- The methods of a node but `ls` and `dir`, with their extra tags. -/
def takeMethods (ti : ShvTypeInfo) (property_path : Bytes) (methods : RpcList) :
    Except String (ShvTypeInfo × RpcList) :=
  methods.foldlM
    (fun acc rv => do
      let mm ← ShvMethodDescr.fromRpcValue rv
      if mm.name = METH_LS ∨ mm.name = METH_DIR then pure acc
      else
        let key := joinPath (joinPath property_path (ascii "method")) mm.name
        pure (if mm.extra = [] then acc.1 else acc.1.setExtraTags key (.ofVariant (.map mm.extra)),
          acc.2 ++ [mm.toRpcValue]))
    (ti, [])

/-- A device whose type is known: properties that it lacks or has otherwise are deviations. -/
def addDeviations (ti : ShvTypeInfo) (device_path : Bytes) (old new : ShvDeviceDescription) :
    ShvTypeInfo :=
  let (ti, new) := old.properties.foldl
    (fun acc p =>
      let shv_path := joinPath device_path p.name
      match acc.2.findProperty p.name with
      | none => (acc.1.setPropertyDeviation shv_path ⟨.invalid⟩, acc.2)
      | some q =>
        (if q.m_data.eq p.m_data then acc.1 else acc.1.setPropertyDeviation shv_path q,
          { acc.2 with properties := acc.2.properties.eraseP (·.name = p.name) }))
    (ti, new)
  new.properties.foldl (fun ti q => ti.setPropertyDeviation (joinPath device_path q.name) q) ti

/-- The end of a device. -/
def enterDevice (ti : ShvTypeInfo) (device_type device_path : Bytes) (new : ShvDeviceDescription) :
    ShvTypeInfo :=
  let ti := { ti with devicePaths := SortedMap.insert device_path device_type ti.devicePaths }
  match SortedMap.find? device_type ti.deviceDescriptions with
  | none =>
    { ti with deviceDescriptions := SortedMap.insert device_type new ti.deviceDescriptions }
  | some old => ti.addDeviations device_path old new

/-- The tags of a node. -/
def nodeTags (node : RpcValue) : RpcMap := (node.metaValue (ascii "tags")).asMap

/-- The node has a type that its name stands for. -/
def nodeTypeRef (node : RpcValue) : Bytes := (node.metaValue (ascii "nodeTypeRef")).asString

/-- What a node comes to before its children: the tables, the device it belongs to, the path
in the device, the description of the device, and the one of the property. -/
structure NodeVisit where
  ti : ShvTypeInfo
  device_type : Bytes
  device_path : Bytes
  property_path : Bytes
  device_description : ShvDeviceDescription
  property_descr : ShvDescr

/-- A node without its children. -/
def visitNode (ti : ShvTypeInfo) (node : RpcValue) (device_type device_path property_path : Bytes)
    (device_description : ShvDeviceDescription) : Except String NodeVisit := do
  let (ti, property_methods) ← ti.takeMethods property_path (node.metaValue (ascii "methods")).asList
  let tags := nodeTags node
  let dtype := (tags.get "deviceType").asString
  let device := if dtype = [] then (device_type, device_path, property_path, device_description)
    else (dtype, joinPath device_path property_path, [], ShvDeviceDescription.empty)
  let map := SortedMap.erase (ascii "createFromTypeName") tags
  let map := if property_methods = [] then map
    else SortedMap.insert (ascii "methods") (.ofVariant (.list property_methods)) map
  if map = [] then pure ⟨ti, device.1, device.2.1, device.2.2.1, device.2.2.2, ⟨.invalid⟩⟩
  else
    let (d, extra_tags) := ShvDescr.propertyFromRpcValue (.ofVariant (.map map))
    let shv_path := joinPath device.2.1 device.2.2.1
    let descr := if d.isValid then
        { device.2.2.2 with properties := device.2.2.2.properties ++ [d.setName device.2.2.1] }
      else device.2.2.2
    let system_path := (extra_tags.get "systemPath").asString
    let ti := if system_path = [] then ti
      else { ti with systemPathsRoots := SortedMap.insert shv_path system_path ti.systemPathsRoots }
    let blacklist := extra_tags.get "blacklist"
    let ti := if blacklist.isValid then ti.setBlacklist shv_path blacklist else ti
    let extra_tags := SortedMap.erase (ascii "blacklist")
      (SortedMap.erase (ascii "systemPath") extra_tags)
    let ti := if extra_tags = [] then ti
      else ti.setExtraTags shv_path (.ofVariant (.map extra_tags))
    pure ⟨ti, device.1, device.2.1, device.2.2.1, descr, if d.isValid then d.setName device.2.2.1 else d⟩

/-- The children of a node are visited: it is no property that has a type. -/
def hasChildProperties (node : RpcValue) (type_name : Bytes) : Bool :=
  type_name = [] ∧ ¬ (nodeTags node).hasKey "createFromTypeName"

/-- `fromNodesTree_helper`: the tables, and the description that was passed by a pointer. -/
def fromNodesTreeHelper (node_types : RpcMap) : Nat → ShvTypeInfo → RpcValue → Bytes → Bytes → Bytes →
    Option ShvDeviceDescription → Fueled String (ShvTypeInfo × Option ShvDeviceDescription)
  | 0, _, _, _, _, _, _ => Fueled.more
  | n + 1, ti, node, device_type, device_path, property_path, device_description =>
    if node.isValid = false then pure (ti, device_description)
    else if nodeTypeRef node ≠ [] then
      fromNodesTreeHelper node_types n ti (node_types.valueOr (nodeTypeRef node) .invalid) device_type
        device_path property_path device_description
    else do
      let visit ← Fueled.ofExcept (ti.visitNode node device_type device_path property_path
        (device_description.getD .empty))
      let type_name ← Fueled.ofExcept visit.property_descr.typeName
      let (ti, descr) ← ((if hasChildProperties node type_name then node.asMap else []).filter
          (·.1 ≠ [])).foldlM
        (fun acc child => do
          let (ti, descr) ← fromNodesTreeHelper node_types n acc.1 child.2 visit.device_type
            visit.device_path (joinPath visit.property_path child.1) (some acc.2)
          pure (ti, descr.getD acc.2))
        (visit.ti, visit.device_description)
      if device_description.isNone ∨ ((nodeTags node).get "deviceType").asString ≠ [] then
        pure (ti.enterDevice visit.device_type visit.device_path descr, device_description)
      else pure (ti, some descr)

/-- `types` of a document. -/
def typesOf (types : RpcMap) : Except String (List (Bytes × ShvDescr)) :=
  types.mapM fun e => (e.1, ·) <$> ShvDescr.typeFromRpcValue e.2

/-- `types` of a tree of nodes: a type without a name has that of its key. -/
def namedTypesOf (types : RpcMap) : Except String (List (Bytes × ShvDescr)) :=
  types.mapM fun e => do
    let td ← ShvDescr.typeFromRpcValue e.2
    let type_name ← td.typeName
    let td ← if type_name = [] then td.setTypeName e.1 else pure td
    pure (e.1, td)

/-- `fromNodesTree`. -/
def fromNodesTree (n : Nat) (v : RpcValue) : Fueled String ShvTypeInfo := do
  let types ← Fueled.ofExcept (namedTypesOf (((v.metaValue (ascii "typeInfo")).asMap.get "types").asMap))
  let (ti, _) ← fromNodesTreeHelper (v.metaValue (ascii "nodeTypes")).asMap n { types := types } v
    [] [] [] none
  pure ti

/-- The properties of a device in version 3, by their paths. -/
def version3Properties (prop_map : RpcValue) : ShvDeviceDescription where
  properties := prop_map.asMap.map fun e => (ShvDescr.propertyFromRpcValue e.2).1.setName e.1
  restrictionOfDevice := []
  siteSpecificLocalization := false

/-- Versions 3 and 4 of `fromRpcValue`. -/
def fromTables (map : RpcMap) (version : Int32) : Except String ShvTypeInfo := do
  let types ← typesOf (map.get "types").asMap
  pure {
    types := types
    devicePaths := (map.get "devicePaths").asMap.map fun e => (e.1, e.2.asString)
    deviceDescriptions :=
      if version = 3 then
        (map.get "deviceProperties").asMap.map fun e => (e.1, version3Properties e.2)
      else
        (map.get "deviceDescriptions").asMap.map fun e => (e.1, ShvDeviceDescription.fromRpcValue e.2)
    extraTags := (map.get "extraTags").asMap
    systemPathsRoots := (map.get "systemPathsRoots").asMap.map fun e => (e.1, e.2.asString)
    blacklistedPaths := (map.get "blacklistedPaths").asMap
    propertyDeviations := (map.get "propertyDeviations").asMap.map fun e =>
      (e.1, (ShvDescr.propertyFromRpcValue e.2).1) }

/-- Version 2 of `fromRpcValue`. -/
def fromPaths (map : RpcMap) : Except String ShvTypeInfo := do
  let types ← typesOf (map.get "types").asMap
  let properties ← (map.get "paths").asMap.mapM fun e => do
    let nd ← (ShvDescr.propertyFromRpcValue e.2).1.setTypeName (e.2.asMap.get "type").asString
    pure (nd.setName e.1)
  pure { types := types, deviceDescriptions := [([], ⟨properties, [], false⟩)] }

/-- The document as its version says. -/
def fromVersion (n : Nat) (v : RpcValue) (version : Int32) : Fueled String ShvTypeInfo :=
  if version = 3 ∨ version = 4 then Fueled.ofExcept (fromTables v.asMap version)
  else if v.asMap.hasKey "paths" ∧ v.asMap.hasKey "types" then Fueled.ofExcept (fromPaths v.asMap)
  else fromNodesTree n v

/-- `fromRpcValue`. -/
def fromRpcValue (n : Nat) (v : RpcValue) : Fueled String ShvTypeInfo := do
  let version ← Fueled.ofExcept (v.metaValue (ascii "version")).toInt
  let ti ← fromVersion n v version
  pure (if ti.systemPathsRoots = [] then { ti with systemPathsRoots := [([], ascii "system")] } else ti)

/-! ## values with types -/

/-- `applyTypeDescription` of a type that no other types are named by. -/
def applyLeaf (val : RpcValue) (d : ShvDescr) (t : Option ShvType) (translate_enums : Bool) :
    Except String RpcValue :=
  match t with
  | some .Enum => do
    let ival ← val.toInt
    if translate_enums then do
      let fld ← d.fields.findM? fun fld => (· = ival) <$> fld.bitRange.toInt
      match fld with
      | some fld => pure (text fld.name)
      | none => pure (text (ascii "UNKNOWN_" ++ CponWriter.toCpon [] val))
    else pure (.ofVariant (.int ival.toInt64))
  | some .Bool => pure (.ofVariant (.bool val.toBool))
  | some .UInt => (fun n => .ofVariant (.uint n.toUInt64)) <$> val.toUInt
  | some .Int => (fun n => .ofVariant (.int n.toInt64)) <$> val.toInt
  | some .Decimal =>
    if val.isDecimal then pure val
    else (fun n => .ofVariant (.decimal (.fromDouble val.toDouble n))) <$> d.decimalPlaces
  | some .Double => pure (.ofVariant (.double val.toDouble.toBits))
  | some .String => pure (if val.isString then val else text val.asString)
  | some .DateTime => pure (.ofVariant (.dateTime val.toDateTime))
  | some .List => pure (if val.isList then val else .ofVariant (.list val.asList))
  | some .IMap => pure (if val.isIMap then val else .ofVariant (.imap val.asIMap))
  | some .Map => pure (.ofVariant (.map val.asMap))
  | _ => pure val

/-- `applyTypeDescription`. -/
def applyTypeDescription (ti : ShvTypeInfo) : Nat → RpcValue → ShvDescr → Bool → Bool →
    Fueled String RpcValue
  | 0, _, _, _, _ => Fueled.more
  | n + 1, val, d, translate_enums, recursive_bitfields => do
    let t ← Fueled.ofExcept d.type
    if t = some .BitField ∧ recursive_bitfields then
      let map ← d.fields.foldlM
        (fun map fld => do
          let uval ← Fueled.ofExcept val.toUInt64
          let result ← Fueled.ofExcept (fld.bitfieldValue uval)
          let type_name ← Fueled.ofExcept fld.typeName
          let result ← applyTypeDescription ti n result (ti.findTypeDescription type_name)
            translate_enums true
          pure (SortedMap.insert fld.name result map))
        ([] : RpcMap)
      pure (.ofVariant (.map map))
    else if t = some .Map ∧ val.isMap then
      let map ← val.asMap.foldlM
        (fun map e => do
          let type_name ← Fueled.ofExcept (d.field e.1).typeName
          let result ← applyTypeDescription ti n e.2 (ti.findTypeDescription type_name)
            translate_enums recursive_bitfields
          pure (SortedMap.insert e.1 result map))
        ([] : RpcMap)
      pure (.ofVariant (.map map))
    else Fueled.ofExcept (applyLeaf val d t translate_enums)

end ShvTypeInfo

/-! ## alarms -/

/-- `ShvAlarm`. -/
structure ShvAlarm where
  path : Bytes
  isActive : Bool
  description : Bytes
  label : Bytes
  level : Int32
  severity : Int32

namespace ShvAlarm

/-- `ShvAlarm::Severity::Invalid` and `severityFromString`, which belong to a logging library. -/
structure Severities where
  invalid : Int32
  fromString : Bytes → Int32

variable (severities : Severities) (getAlarm : ShvDescr → Bytes)

/-- The alarm of a field or a property. -/
def alarmOf (shv_path : Bytes) (isActive : Bool) (d : ShvDescr) : Except String ShvAlarm := do
  let level ← d.alarmLevel
  pure ⟨shv_path, isActive, d.description, d.label, level, severities.fromString (getAlarm d)⟩

/-- The alarms of an enum: the last field with an alarm that the value is equal to. -/
def enumAlarms (shv_path : Bytes) (d : ShvDescr) (value : RpcValue) : Except String (List ShvAlarm) :=
  let defined := d.fields.filter fun fld => getAlarm fld ≠ []
  if defined = [] then pure []
  else
    match (defined.filter fun fld => value.eq fld.bitRange).getLast? with
    | some fld => ([·]) <$> alarmOf severities getAlarm shv_path true fld
    | none => pure [⟨shv_path, false, [], [], 0, severities.invalid⟩]

/-- `checkAlarmsImpl` for a type. -/
def checkTypeAlarms (ti : ShvTypeInfo) : Nat → Bytes → Bytes → RpcValue →
    Fueled String (List ShvAlarm)
  | 0, _, _, _ => Fueled.more
  | n + 1, shv_path, type_name, value =>
    let d := ti.findTypeDescription type_name
    if d.isValid = false then pure []
    else do
      let t ← Fueled.ofExcept d.type
      if t = some .BitField then
        d.fields.foldlM
          (fun alarms fld => do
            let fld_path := shv_path ++ SHV_PATH_DELIM :: fld.name
            if getAlarm fld ≠ [] then
              let uval ← Fueled.ofExcept value.toUInt64
              let bit ← Fueled.ofExcept (fld.bitfieldValue uval)
              let alarm ← Fueled.ofExcept (alarmOf severities getAlarm fld_path bit.toBool fld)
              pure (alarms ++ [alarm])
            else
              let type_name ← Fueled.ofExcept fld.typeName
              let uval ← Fueled.ofExcept value.toUInt64
              let bit ← Fueled.ofExcept (fld.bitfieldValue uval)
              let alarms2 ← checkTypeAlarms ti n fld_path type_name bit
              pure (alarms ++ alarms2))
          []
      else if t = some .Enum then Fueled.ofExcept (enumAlarms severities getAlarm shv_path d value)
      else pure []

/-- `checkAlarmsImpl` for a path. -/
def checkAlarmsImpl (ti : ShvTypeInfo) (n : Nat) (shv_path : Bytes) (value : RpcValue) :
    Fueled String (List ShvAlarm) :=
  let d := (ti.pathInfo shv_path).propertyDescription
  if value.isNull then pure []
  else if d.isValid = false then pure []
  else if getAlarm d ≠ [] then
    Fueled.ofExcept (([·]) <$> alarmOf severities getAlarm shv_path value.toBool d)
  else do
    let type_name ← Fueled.ofExcept d.typeName
    checkTypeAlarms severities getAlarm ti n shv_path type_name value

/-- `ShvAlarm::checkAlarms`. -/
def checkAlarms (ti : ShvTypeInfo) (n : Nat) (shv_path : Bytes) (value : RpcValue) :
    Fueled String (List ShvAlarm) := checkAlarmsImpl severities ShvDescr.alarm ti n shv_path value

/-- `ShvAlarm::checkStateAlarms`. -/
def checkStateAlarms (ti : ShvTypeInfo) (n : Nat) (shv_path : Bytes) (value : RpcValue) :
    Fueled String (List ShvAlarm) := checkAlarmsImpl severities ShvDescr.stateAlarm ti n shv_path value

end ShvAlarm

end LibShv
