import LibShv.AclManagerSqlite
import LibShv.ClientConnectionOnBroker
import LibShv.CponWriter
import LibShv.ShvJournalFile

/-!
# LibShv.AclManagerSqlite.Definitions

Users, roles and mount definitions in SQLite tables (`aclmanagersqlite.cpp`). A
definition is stored by a statement that its texts are put into one after
another, each at the lowest place marker that is there then.

Qt and SQLite are parameters again: what an `INSERT` with some texts does to a
table is known of every statement that reads as one.
-/

namespace LibShv

/-! ## passwords -/

/-- `AclPassword::formatToString`. -/
def AclPassword.formatToString : AclPassword.Format → Bytes
  | .Plain => ascii "PLAIN"
  | .Sha1 => ascii "SHA1"
  | .Invalid => ascii "INVALID"

/-- `AclPassword::formatFromString`. -/
def AclPassword.formatFromString (s : Bytes) : AclPassword.Format :=
  if strEq s (AclPassword.formatToString .Plain) then .Plain
  else if strEq s (AclPassword.formatToString .Sha1) then .Sha1
  else .Invalid

theorem AclPassword.formatFromString_formatToString (f : AclPassword.Format) :
    AclPassword.formatFromString (AclPassword.formatToString f) = f := by
  cases f <;> decide

namespace AclManagerSqlite

/-! ## statements as SQLite reads them -/

/-- A character of a statement, or a text between apostrophes. -/
inductive Token where
  | char (c : Char)
  | literal (s : QString)
  | unterminated (s : QString)
deriving DecidableEq

/-- The tokens of a statement up to a null character, with the text that was begun. Two
apostrophes in a text are one. -/
def tokens : Option QString → QString → List Token
  | none, [] => []
  | none, '\x00' :: _ => []
  | none, '\'' :: s => tokens (some []) s
  | none, c :: s => .char c :: tokens none s
  | some text, [] => [.unterminated text]
  | some text, '\x00' :: _ => [.unterminated text]
  | some text, '\'' :: '\'' :: s => tokens (some (text ++ ['\''])) s
  | some text, '\'' :: s => .literal text :: tokens none s
  | some text, c :: s => tokens (some (text ++ [c])) s

def chars (s : QString) : List Token := s.map .char

/-- The tables of definitions. The first column is the primary key. -/
inductive Table where
  | mounts
  | users
  | roles
deriving DecidableEq

/-- `TBL_ACL_MOUNTS`, `TBL_ACL_USERS` and `TBL_ACL_ROLES`. -/
def Table.name : Table → String
  | mounts => "acl_mounts"
  | users => "acl_users"
  | roles => "acl_roles"

/-- The columns that are set. -/
def Table.columns : Table → List String
  | mounts => ["deviceId", "mountPoint", "description"]
  | users => ["name", "password", "passwordFormat", "roles"]
  | roles => ["name", "roles", "profile"]

def Table.key : Table → String
  | mounts => "deviceId"
  | users => "name"
  | roles => "name"

/-- The beginning of an `INSERT` into a table, up to the values. -/
def insertInto (table : Table) : QString :=
  ("INSERT OR REPLACE INTO " ++ table.name ++ " (" ++ ", ".intercalate table.columns ++
    ") VALUES(").toList

/-- The tokens of an `INSERT` of these texts. -/
def insertTokens (table : Table) (values : List QString) : List Token :=
  chars (insertInto table) ++
    (chars ", ".toList).intercalate (values.map fun v => [.literal v]) ++ chars [')']

/-- A record of a table, by columns. -/
abbrev Row := List (String × QString)

def Row.valueOf (row : Row) (column : String) : QString := (row.lookup column).getD []

/-- `sqlLoadRow`. -/
def selectRow (table : Table) (key_value : QString) : QString :=
  ("SELECT * FROM " ++ table.name ++ " WHERE " ++ table.key ++ "='").toList ++ key_value ++ ['\'']

/-- Qt, and SQLite on the records of each table. -/
structure SqliteRows where
  fromStdString : Bytes → QString
  toStdString : QString → Bytes
  exec : Table → QString → List Row → Except String (List Row)
  select : Table → QString → List Row → Except String (List Row)
  fromStdString_toStdString : ∀ s, fromStdString (toStdString s) = s
  toStdString_nil : toStdString (fromStdString []) = []
  toStdString_format : ∀ f, toStdString (fromStdString (AclPassword.formatToString f)) =
    AclPassword.formatToString f
  exec_insert : ∀ sql table values rows, tokens none sql = insertTokens table values →
    table.columns.length = values.length → exec table sql rows =
      .ok (rows.filter (fun row => row.head? ≠ (table.columns.zip values).head?) ++
        [table.columns.zip values])
  select_row : ∀ table key_value rows, Literal key_value →
    select table (selectRow table key_value) rows =
      .ok (rows.filter fun row => row.head? = some (table.key, key_value))

variable (S : SqliteRows)

/-! ## definitions -/

/-- `join_str_vec`. -/
def joinStrVec (lst : List Bytes) : QString := QString.join ',' (lst.map S.fromStdString)

/-- `split_str_vec`. -/
def splitStrVec (ss : QString) : List Bytes :=
  (QString.splitSkipEmpty ',' ss).map fun s => S.toStdString (QString.trimmed s)

/-- What is stored. -/
inductive Definition where
  | mount (device_id : Bytes) (md : AclMountDef)
  | user (user_name : Bytes) (u : AclUser)
  | role (role_name : Bytes) (r : AclRole)

namespace Definition

/-- A mount definition or a user that is not valid is deleted. -/
def isValid : Definition → Bool
  | mount _ md => md.isValid
  | user _ u => u.isValid
  | role _ _ => true

def table : Definition → Table
  | mount _ _ => .mounts
  | user _ _ => .users
  | role _ _ => .roles

def template (d : Definition) : QString :=
  insertInto d.table ++
    match d with
    | mount _ _ => "'%1', '%2', '%3')".toList
    | user _ _ => "'%1', '%2', '%3', '%4')".toList
    | role _ _ => "'%1', '%2', '%3')".toList

/-- The text of the profile of a role. -/
def profileText (r : AclRole) : Bytes := if r.profile.isValid then CponWriter.toCpon [] r.profile else []

def name : Definition → Bytes
  | mount device_id _ => device_id
  | user user_name _ => user_name
  | role role_name _ => role_name

/-- The texts that are put into the statement, in order. -/
def texts : Definition → List QString
  | mount device_id md =>
    [S.fromStdString device_id, S.fromStdString md.mountPoint, S.fromStdString md.description]
  | user user_name u =>
    [S.fromStdString user_name, S.fromStdString u.password.password,
      S.fromStdString (AclPassword.formatToString u.password.format), joinStrVec S u.roles]
  | role role_name r =>
    [S.fromStdString role_name, joinStrVec S r.roles, S.fromStdString (profileText r)]

/-- The statement of `aclSetMountDef`, `aclSetUser` and `aclSetRole`. -/
def statement (d : Definition) : QString :=
  if d.isValid then (d.texts S).foldl QString.arg d.template
  else ("DELETE FROM " ++ d.table.name ++ " WHERE " ++ d.table.key ++ "='").toList ++
    S.fromStdString d.name ++ ['\'']

end Definition

/-- `aclSetMountDef`, `aclSetUser` and `aclSetRole`. -/
def aclSet (d : Definition) (rows : List Row) : Except String (List Row) :=
  S.exec d.table (d.statement S) rows

/-- `aclMountDef`. -/
def aclMountDef (device_id : Bytes) (rows : List Row) : Except String AclMountDef := do
  let found ← S.select .mounts (selectRow .mounts (S.fromStdString device_id)) rows
  match found.head? with
  | none => pure ⟨[], []⟩
  | some row => pure ⟨S.toStdString (row.valueOf "mountPoint"), S.toStdString (row.valueOf "description")⟩

/-- `aclUser`. -/
def aclUser (user_name : Bytes) (rows : List Row) : Except String AclUser := do
  let found ← S.select .users (selectRow .users (S.fromStdString user_name)) rows
  match found.head? with
  | none => pure ⟨⟨[], .Invalid⟩, []⟩
  | some row =>
    pure ⟨⟨S.toStdString (row.valueOf "password"),
      AclPassword.formatFromString (S.toStdString (row.valueOf "passwordFormat"))⟩,
      splitStrVec S (row.valueOf "roles")⟩

/-- The profile of a role from its text: no value if it is no map. -/
def profileOf (profile_str : Bytes) : Except String RpcValue := do
  if profile_str = [] then pure .invalid
  else
    let profile ← ShvJournalFileReader.fromCpon profile_str
    match profile with
    | none => pure .invalid
    | some profile => pure (if profile.isMap then profile else .invalid)

/-- `aclRole`. -/
def aclRole (role_name : Bytes) (rows : List Row) : Except String AclRole := do
  let found ← S.select .roles (selectRow .roles (S.fromStdString role_name)) rows
  match found.head? with
  | none => pure ⟨[], .invalid⟩
  | some row =>
    let profile ← profileOf (S.toStdString (row.valueOf "profile"))
    pure ⟨splitStrVec S (row.valueOf "roles"), profile⟩

/-- The definition under the name of this one. -/
def read (rows : List Row) : Definition → Except String Definition
  | .mount device_id _ => (aclMountDef S device_id rows).map (.mount device_id)
  | .user user_name _ => (aclUser S user_name rows).map (.user user_name)
  | .role role_name _ => (aclRole S role_name rows).map (.role role_name)

/-- The statement is one `INSERT` of the texts of the definition, and once it is
executed the definition is read back. -/
def Survives (d : Definition) (rows : List Row) : Prop :=
  tokens none (d.statement S) = insertTokens d.table (d.texts S) ∧
    ∃ rows', aclSet S d rows = .ok rows' ∧ read S rows' d = .ok d

end AclManagerSqlite

end LibShv
