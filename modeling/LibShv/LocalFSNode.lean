import LibShv.AccessGrant
import LibShv.CponWriter
import LibShv.Lib.CleanPath
import LibShv.QString
import LibShv.RpcMessage
import LibShv.RpcValue.As
import LibShv.StringViewList

/-!
# LibShv.LocalFSNode

A directory of the file system as a node (`localfsnode.cpp`, `filenode.cpp`). The
path of a request and sometimes a parameter make the path of a file below the root
directory.

The file system is a parameter: its state, what is asked about a path and what is
done with it. Every path that is opened, created, listed, removed or asked about is
noted down in the order of the calls, in absolute form and before it is cleaned.
-/

namespace LibShv

namespace RpcValue

/-- `asBlob`: empty for every other type. -/
def asBlob (v : RpcValue) : Bytes :=
  match v.value with
  | .blob s => s
  | _ => []

/-- `isBool`. -/
def isBool (v : RpcValue) : Bool :=
  match v.value with
  | .bool _ => true
  | _ => false

/-- `toBool`. -/
def toBool (v : RpcValue) : Bool :=
  match v.value with
  | .bool b => b
  | .int n => n ≠ 0
  | .uint n => n ≠ 0
  | .double bits => Float.ofBits bits != 0
  | .decimal d => d.mantissa ≠ 0
  | .dateTime dt => dt.msecsSinceEpoch ≠ 0
  | _ => false

end RpcValue

open CleanPath

/-! ## the file system -/

/-- The name of a file as a directory lists it. -/
structure FileName where
  text : QString
  isName : IsName text

/-- `QFileInfo` of a listed file. -/
structure FileInfo where
  fileName : FileName
  isDir : Bool
  size : Int64
  birthTime : Int64

/-- `QFile::OpenMode`. -/
inductive OpenMode where
  | ReadOnly
  | WriteOnly
  | Append
deriving DecidableEq

/-- What Qt offers: texts, files and directories, checksums and compression. -/
structure FileSystem (σ : Type) where
  fromStdString : Bytes → QString
  toStdString : QString → Bytes
  fileExists : QString → σ → Bool
  isDir : QString → σ → Bool
  size : QString → σ → Int64
  entryInfoList : (withDirs withFiles : Bool) → QString → σ → List FileInfo
  openFile : OpenMode → QString → σ → Bool × σ
  readAt : (offset sz : Int64) → QString → σ → Bytes
  write : Bytes → QString → σ → Unit × σ
  remove : QString → σ → Bool × σ
  rmdir : QString → σ → Bool × σ
  removeRecursively : QString → σ → Bool × σ
  mkpath : QString → σ → Bool × σ
  sha1Hex : Bytes → Bytes
  qCompress : Bytes → Bytes
  compressGZip : Bytes → Bytes

/-- The state of the files, and the paths touched so far. -/
structure World (σ : Type) where
  files : σ
  touched : List QString

/-- A computation on files; it throws a message. -/
abbrev FsM (σ : Type) := EStateM Bytes (World σ)

/-- Something is asked about a path. -/
def ask (path : QString) (f : QString → σ → α) : FsM σ α := fun w =>
  .ok (f path w.files) ⟨w.files, w.touched ++ [path]⟩

/-- Something is done with a path. -/
def change (path : QString) (f : QString → σ → α × σ) : FsM σ α := fun w =>
  .ok (f path w.files).1 ⟨(f path w.files).2, w.touched ++ [path]⟩

/-- An exception of a conversion. -/
def FsM.ofExcept : Except String α → FsM σ α
  | .ok a => pure a
  | .error msg => throw (ascii msg)

/-! ## methods -/

/-- `MetaMethod`. -/
structure FileMethod where
  name : Bytes
  flags : UInt32 := 0
  paramType : Bytes
  resultType : Bytes
  accessLevel : AccessLevel
  description : Bytes := []

/-- `MetaMethod::toRpcValue`; there are no signals, labels and extra values here. -/
def FileMethod.toRpcValue (mm : FileMethod) : RpcValue := .ofVariant <| .imap
  [(1, .ofVariant (.string mm.name)),
    (2, .ofVariant (.uint mm.flags.toUInt64)),
    (3, .ofVariant (.string mm.paramType)),
    (4, .ofVariant (.string mm.resultType)),
    (5, .ofVariant (.int mm.accessLevel.toInt.toInt64)),
    (6, .ofVariant (.map [])),
    (7, .ofVariant (.map [(ascii "description", .ofVariant (.string mm.description)),
      (ascii "label", .ofVariant (.string []))]))]

def M_HASH : Bytes := ascii "hash"
def M_SIZE : Bytes := ascii "size"
def M_SIZE_COMPRESSED : Bytes := ascii "sizeCompressed"
def M_READ : Bytes := ascii "read"
def M_READ_COMPRESSED : Bytes := ascii "readCompressed"
def M_WRITE : Bytes := ascii "write"
def M_DELETE : Bytes := ascii "delete"
def M_MKFILE : Bytes := ascii "mkfile"
def M_MKDIR : Bytes := ascii "mkdir"
def M_RMDIR : Bytes := ascii "rmdir"
def M_LS_FILES : Bytes := ascii "lsfiles"
def METH_DIR : Bytes := ascii "dir"
def METH_LS : Bytes := ascii "ls"

def DIR : FileMethod where
  name := METH_DIR
  paramType := ascii "DirParam"
  resultType := ascii "DirResult"
  accessLevel := .Browse

def LS : FileMethod where
  name := METH_LS
  paramType := ascii "LsParam"
  resultType := ascii "LsResult"
  accessLevel := .Browse

/-- `FileNode::meta_methods_file_base`. -/
def meta_methods_file_base : List FileMethod :=
  [DIR, LS,
    { name := M_HASH, paramType := ascii "Map", resultType := ascii "String", accessLevel := .Read },
    { name := M_SIZE, flags := 8, paramType := [], resultType := ascii "UInt",
      accessLevel := .Browse },
    { name := M_SIZE_COMPRESSED, paramType := ascii "Map", resultType := ascii "UInt",
      accessLevel := .Browse,
      description := ascii "Parameters\n  read() parameters\n  compressionType: gzip (default) | qcompress" },
    { name := M_READ, flags := 8, paramType := ascii "Map", resultType := ascii "Blob",
      accessLevel := .Read,
      description := ascii "Parameters\n  offset: file offset to start read, default is 0\n  size: number of bytes to read starting on offset, default is till end of file\n" },
    { name := M_READ_COMPRESSED, paramType := ascii "Map", resultType := ascii "Blob",
      accessLevel := .Read,
      description := ascii "Parameters\n  read() parameters\n  compressionType: gzip (default) | qcompress" }]

def meta_methods_dir : List FileMethod :=
  [DIR, LS,
    { name := M_LS_FILES, paramType := ascii "Map|Null", resultType := ascii "List",
      accessLevel := .Read },
    { name := M_MKFILE, paramType := ascii "String|List", resultType := ascii "Bool",
      accessLevel := .Write },
    { name := M_MKDIR, paramType := ascii "String", resultType := ascii "Bool",
      accessLevel := .Write },
    { name := M_RMDIR, paramType := ascii "Bool", resultType := ascii "Bool",
      accessLevel := .Service }]

def meta_methods_dir_write_file : List FileMethod :=
  [{ name := M_WRITE, paramType := ascii "String|List", resultType := ascii "Bool",
     accessLevel := .Write }]

/-- `get_meta_methods_file`. -/
def meta_methods_file : List FileMethod :=
  meta_methods_file_base ++ meta_methods_dir_write_file ++
    [{ name := M_DELETE, paramType := [], resultType := ascii "Bool", accessLevel := .Service }]

/-! ## the node -/

/-- `LocalFSNode`: where it is in the tree, its root directory as it was given and
the names on the absolute path of this. -/
structure LocalFSNode where
  shvPath : Bytes
  rootPath : QString
  rootDirs : List Component
  isName : ∀ name ∈ rootDirs, IsName name

namespace LocalFSNode

/-- `m_rootDir.absolutePath()`. -/
def rootDir (nd : LocalFSNode) : QString := render nd.rootDirs

variable (fs : FileSystem σ) (nd : LocalFSNode)

/-- `makeAbsolutePath`. -/
def makeAbsolutePath (relative_path : QString) : QString := nd.rootDir ++ '/' :: relative_path

/-- `checkPathIsBoundedToFsRoot`. -/
def checkPathIsBoundedToFsRoot (path : QString) : FsM σ Unit :=
  if nd.rootDir <+: cleanPath path then pure ()
  else throw (ascii "Path:" ++ fs.toStdString path ++ ascii " is out of fs root directory:" ++
    fs.toStdString nd.rootPath)

/-- `ndSize`. -/
def ndSize (path : QString) : FsM σ RpcValue := do
  return .ofVariant (.uint (← ask (nd.makeAbsolutePath path) fs.size).toUInt64.toUInt32.toUInt64)

/-- What `ndRead` reads from an open file. -/
def readOpened (file_path : QString) (offset size : Int64) : FsM σ RpcValue := do
  let sz := (← ask file_path fs.size) - offset
  if sz ≤ 0 then return .ofVariant (.blob [])
  else return .ofVariant (.blob (← ask file_path (fs.readAt offset (if size < sz then size else sz))))

/-- `ndRead`. -/
def ndRead (path : QString) (offset size : Int64) : FsM σ RpcValue := do
  let file_path := nd.makeAbsolutePath path
  checkPathIsBoundedToFsRoot fs nd file_path
  if ← change file_path (fs.openFile .ReadOnly) then readOpened fs file_path offset size
  else throw (ascii "Cannot open file " ++ fs.toStdString file_path ++ ascii " for reading.")

/-- A file is opened and written. -/
def writeOpened (open_mode : OpenMode) (file_path : QString) (content : Bytes) : FsM σ RpcValue := do
  if ← change file_path (fs.openFile open_mode) then
    change file_path (fs.write content)
    return .ofVariant (.bool true)
  else throw (ascii "Cannot open file " ++ fs.toStdString file_path ++ ascii " for writing.")

/-- `ndWrite`. -/
def ndWrite (path : QString) (methods_params : RpcValue) : FsM σ RpcValue :=
  let file_path := nd.makeAbsolutePath path
  if methods_params.isString then writeOpened fs .WriteOnly file_path methods_params.asString
  else
    match methods_params.value with
    | .list [content, flags] =>
      let append := (flags.asMap.valueOr (ascii "append") .invalid).toBool
      writeOpened fs (if append then .Append else .WriteOnly) file_path content.toString
    | .list _ =>
      throw (ascii "Cannot write to file " ++ fs.toStdString file_path ++
        ascii ". Invalid parameters count.")
    | _ => throw (ascii "Unsupported param type.")

/-- `ndDelete`. -/
def ndDelete (path : QString) : FsM σ RpcValue := do
  let file_path := nd.makeAbsolutePath path
  checkPathIsBoundedToFsRoot fs nd file_path
  return .ofVariant (.bool (← change file_path fs.remove))

/-- `QFileInfo(file_path).dir()`: the path up to the last slash. -/
def dirName (file_path : QString) : QString :=
  ((file_path.reverse.dropWhile (· ≠ '/')).drop 1).reverse

/-- `ndMkfile` with a name. -/
def ndMkfileName (path : QString) (name : Bytes) : FsM σ RpcValue := do
  let file_path := nd.makeAbsolutePath (path ++ '/' :: fs.fromStdString name)
  checkPathIsBoundedToFsRoot fs nd file_path
  return .ofVariant (.bool (← change file_path (fs.openFile .WriteOnly)))

/-- `ndMkfile` with a name and a content. -/
def ndMkfileContent (path : QString) (name content : Bytes) : FsM σ RpcValue := do
  let file_path := nd.makeAbsolutePath (path ++ '/' :: fs.fromStdString name)
  if ← change (dirName file_path) fs.mkpath then
    if ← ask file_path fs.fileExists then
      throw (ascii "File " ++ fs.toStdString file_path ++ ascii " already exists.")
    else writeOpened fs .WriteOnly file_path content
  else throw (ascii "Cannot create path " ++ fs.toStdString file_path ++ ascii ".")

/-- `ndMkfile`. -/
def ndMkfile (path : QString) (methods_params : RpcValue) : FsM σ RpcValue :=
  if methods_params.isString then ndMkfileName fs nd path methods_params.asString
  else
    match methods_params.value with
    | .list [name, content] => ndMkfileContent fs nd path name.asString content.asString
    | .list _ => throw (ascii "Invalid params, [\"name\", \"content\"] expected.")
    | _ => throw (ascii "Unsupported param type.")

/-- `ndMkdir`: only the directory it is called on is checked. -/
def ndMkdir (path : QString) (methods_params : RpcValue) : FsM σ RpcValue := do
  let dir_path := nd.makeAbsolutePath path
  checkPathIsBoundedToFsRoot fs nd dir_path
  if methods_params.isString then
    let new_path := nd.makeAbsolutePath (path ++ '/' :: fs.fromStdString methods_params.asString)
    return .ofVariant (.bool (← change new_path fs.mkpath))
  else
    throw (ascii "Cannot create directory in directory " ++ fs.toStdString (cleanPath dir_path) ++
      ascii ". Invalid parameter: " ++ CponWriter.toCpon [] methods_params)

/-- `ndRmdir`. -/
def ndRmdir (path : QString) (recursively : Bool) : FsM σ RpcValue := do
  let file_path := nd.makeAbsolutePath path
  checkPathIsBoundedToFsRoot fs nd file_path
  if path = [] then
    throw (ascii "Cannot remove root directory " ++ fs.toStdString (cleanPath file_path))
  else
    return .ofVariant (.bool (← change file_path (if recursively then fs.removeRecursively else fs.rmdir)))

/-- The row of a listed file. -/
def entryRow (with_size with_ctime : Bool) (dir_path : QString) (fi : FileInfo) : FsM σ RpcValue := do
  let isDir ← ask (dir_path ++ '/' :: fi.fileName.text) fun _ _ => fi.isDir
  let size := if isDir then 0 else fi.size
  return .ofVariant (.list
    ([.ofVariant (.string (fs.toStdString fi.fileName.text)),
      .ofVariant (.string (ascii (if isDir then "d" else "f")))] ++
    (if with_size then [.ofVariant (.int size)] else []) ++
    (if with_ctime then [.ofVariant (.dateTime (.fromMSecsSinceEpoch fi.birthTime 0))] else [])))

/-- `ndLsDir`. -/
def ndLsDir (path : QString) (methods_params : RpcValue) : FsM σ RpcValue := do
  let flag (key : String) (dflt : RpcValue) := (methods_params.asMap.valueOr (ascii key) dflt).toBool
  let yes := RpcValue.ofVariant (.bool true)
  let dir_path := nd.makeAbsolutePath path
  if ← ask dir_path fs.isDir then
    if ← ask dir_path fs.fileExists then
      let entries ← ask dir_path (fs.entryInfoList (flag "dirs" yes) (flag "files" yes))
      let lst ← entries.mapM (entryRow fs (flag "size" yes) (flag "ctime" .invalid) dir_path)
      return .ofVariant (.list lst)
    else throw (ascii "Path " ++ fs.toStdString (cleanPath dir_path) ++ ascii " do not exists.")
  else return .ofVariant (.list [])

/-- `isDir`. -/
def isDir (shv_path : StringViewList) : FsM σ Bool := do
  let file_path := nd.makeAbsolutePath (fs.fromStdString shv_path.join)
  let _ ← ask file_path fs.fileExists
  ask file_path fs.isDir

/-- `methodCount`. -/
def methodCount (shv_path : StringViewList) : FsM σ Nat := do
  if ← ask (nd.makeAbsolutePath (fs.fromStdString shv_path.join)) fs.fileExists then
    if ← isDir fs nd shv_path then return meta_methods_dir.length
    else return meta_methods_file.length
  else if shv_path ≠ [] then
    if ← ask (nd.makeAbsolutePath (fs.fromStdString (StringViewList.join shv_path.dropLast))) fs.isDir then
      return meta_methods_dir_write_file.length
    else return 0
  else return 0

/-- `metaMethod`; the number in the message is left out. -/
def metaMethod (shv_path : StringViewList) (ix : Nat) : FsM σ FileMethod := do
  let file_path := nd.makeAbsolutePath (fs.fromStdString shv_path.join)
  if ← ask file_path fs.fileExists then
    let methods := if ← ask file_path fs.isDir then meta_methods_dir else meta_methods_file
    methods[ix]?.elim (throw (ascii "Invalid method index: ")) pure
  else if shv_path ≠ [] then
    let methods := if ← ask (nd.makeAbsolutePath (fs.fromStdString (StringViewList.join shv_path.dropLast))) fs.isDir
      then meta_methods_dir_write_file else []
    methods[ix]?.elim (throw (ascii "Invalid method index: ")) pure
  else throw (ascii "Invalid method index: ")

/-- `childNames`. -/
def childNames (shv_path : StringViewList) : FsM σ (List Bytes) := do
  let dirs ← ndLsDir fs nd (fs.fromStdString shv_path.join) RpcValue.invalid
  return dirs.asList.map fun rv => (rv.asList[0]?.getD RpcValue.invalid).asString

/-- The first method of a name. -/
def findMethod (shv_path : StringViewList) (method_name : Bytes) : List Nat → FsM σ RpcValue
  | [] => return .ofVariant .null
  | ix :: ixs => do
    let mm ← metaMethod fs nd shv_path ix
    if mm.name = method_name then return mm.toRpcValue else findMethod shv_path method_name ixs

/-- `ShvNode::dir`. -/
def dir (shv_path : StringViewList) (methods_params : RpcValue) : FsM σ RpcValue := do
  let method_name := methods_params.asString
  let cnt ← methodCount fs nd shv_path
  if method_name = [] then
    let ret ← (List.range cnt).mapM (metaMethod fs nd shv_path)
    return .ofVariant (.list (ret.map FileMethod.toRpcValue))
  else findMethod fs nd shv_path method_name (List.range cnt)

/-- `ShvNode::ls`. -/
def ls (shv_path : StringViewList) (methods_params : RpcValue) : FsM σ RpcValue := do
  let child_name := methods_params.asString
  let names ← childNames fs nd shv_path
  if child_name = [] then return .ofVariant (.list (names.map fun name => .ofVariant (.string name)))
  else return .ofVariant (.bool (names.any (· == child_name)))

/-! ## reading -/

/-- `fileName`. -/
def fileName (shv_path : StringViewList) : Bytes := shv_path.getLast?.getD []

/-- `setMetaValue` under a string key. -/
def setMetaValue (v : RpcValue) (key : String) (val : RpcValue) : RpcValue :=
  .mk (v.metaData.setSValue (ascii key) val) v.value

def maxInt64 : RpcValue := .ofVariant (.int Int64.maxValue)

/-- `readContent` with the offset and the size of the parameters. -/
def readParams (shv_path : StringViewList) (params : RpcValue) : FsM σ (Int64 × RpcValue) := do
  let offset ← FsM.ofExcept (params.asMap.valueOr (ascii "offset") .invalid).toInt64
  let size ← FsM.ofExcept (params.asMap.valueOr (ascii "size") maxInt64).toInt64
  return (offset, ← ndRead fs nd (fs.fromStdString shv_path.join) offset size)

/-- A size as a value. -/
def sizeValue (bytes : Bytes) : RpcValue := .ofVariant (.uint bytes.length.toUInt64)

/-- `FileNode::read`. -/
def read (shv_path : StringViewList) (params : RpcValue) : FsM σ RpcValue := do
  let content ← readParams fs nd shv_path params
  let ret_value := setMetaValue content.2 "fileName" (.ofVariant (.string (fileName shv_path)))
  let ret_value := setMetaValue ret_value "offset" (.ofVariant (.int content.1))
  return setMetaValue ret_value "size" (sizeValue ret_value.asBlob)

/-- `CompressionType`, unless it is invalid. -/
inductive CompressionType where
  | GZip
  | QCompress

/-- `compression_type_from_string`, with `GZip` as the default. -/
def compressionTypeFromString (type_str : Bytes) : Option CompressionType :=
  if type_str = [] then some .GZip
  else if type_str = ascii "gzip" then some .GZip
  else if type_str = ascii "qcompress" then some .QCompress
  else none

/-- A blob as it is compressed, with the type and the end of the file name. -/
def compressed (blob : Bytes) : CompressionType → RpcValue × String × String
  | .QCompress => (.ofVariant (.blob (fs.qCompress blob)), "qcompress", ".qcompress")
  | .GZip => (.ofVariant (.blob (fs.compressGZip blob)), "gzip", ".gz")

/-- `readFileCompressed`. -/
def readFileCompressed (shv_path : StringViewList) (params : RpcValue) : FsM σ RpcValue := do
  let type_str := (params.asMap.valueOr (ascii "compressionType") .invalid).toString
  match compressionTypeFromString type_str with
  | none => throw (ascii "Invalid compression type: " ++ type_str)
  | some compression_type =>
    let content ← readParams fs nd shv_path params
    let (result, type, ext) := compressed fs content.2.asBlob compression_type
    let result := setMetaValue result "compressionType" (.ofVariant (.string (ascii type)))
    let result := setMetaValue result "fileName"
      (.ofVariant (.string (fileName shv_path ++ ascii ext)))
    let result := setMetaValue result "offset" (.ofVariant (.int content.1))
    return setMetaValue result "size" (sizeValue content.2.asBlob)

/-! ## requests -/

/-- `ShvNode::callMethod`. -/
def shvNodeCallMethod (shv_path : StringViewList) (method : Bytes) (params user_id : RpcValue) :
    FsM σ RpcValue :=
  if method = METH_DIR then dir fs nd shv_path params
  else if method = METH_LS then ls fs nd shv_path params
  else throw (ascii "Node: " ++ nd.shvPath ++ ascii " - method: " ++ method ++
    ascii " not exists on path: " ++ shv_path.join ++ ascii " user id: " ++
    CponWriter.toCpon [] user_id)

/-- `FileNode::callMethod`. -/
def fileNodeCallMethod (shv_path : StringViewList) (method : Bytes) (params user_id : RpcValue) :
    FsM σ RpcValue :=
  if method = M_READ then read fs nd shv_path params
  else if method = M_READ_COMPRESSED then readFileCompressed fs nd shv_path params
  else if method = M_HASH then do
    let bytes := (← read fs nd shv_path params).asBlob
    return .ofVariant (.string (fs.sha1Hex bytes))
  else if method = M_SIZE then ndSize fs nd (fs.fromStdString shv_path.join)
  else if method = M_SIZE_COMPRESSED then do
    let blob := (← readFileCompressed fs nd shv_path params).asBlob
    return .ofVariant (.uint blob.length.toUInt32.toUInt64)
  else shvNodeCallMethod fs nd shv_path method params user_id

/-- `LocalFSNode::callMethod`. -/
def callMethod (shv_path : StringViewList) (method : Bytes) (params user_id : RpcValue) :
    FsM σ RpcValue :=
  let path := fs.fromStdString shv_path.join
  if shv_path.hasElement (ascii "..") then
    throw (ascii "Path cannot contain '..' (parent directory references are not allowed).")
  else if method = M_WRITE then ndWrite fs nd path params
  else if method = M_DELETE then ndDelete fs nd path
  else if method = M_MKFILE then ndMkfile fs nd path params
  else if method = M_MKDIR then ndMkdir fs nd path params
  else if method = M_RMDIR then ndRmdir fs nd path (params.isBool && params.toBool)
  else if method = M_LS_FILES then ndLsDir fs nd path params
  else fileNodeCallMethod fs nd shv_path method params user_id

end LocalFSNode

end LibShv
