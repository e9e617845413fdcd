import LibShv.AccessAclNode
import LibShv.AclManager.Caches
import LibShv.AclManagerSqlite.Definitions
import LibShv.Cpon

/-!
# LibShv.AclManager.ConfigFiles

The access control in files: `saveToConfigFiles` of the node `acl` (`brokeraclnode.cpp`) writes
what a manager answers as CPON, and `AclManagerConfigFiles` (`aclmanager.cpp`) answers from such
files. What is asked of the second manager is answered as it was by the first one, whatever it
keeps its definitions in.

The files are texts; the directories they are in, and files that cannot be opened, are left out.
-/

namespace LibShv

open CponReader CponWriter

/-! ## definitions as values -/

/-- `typeName`. -/
def RpcValue.typeName (v : RpcValue) : String :=
  match v.value with
  | .invalid => "INVALID"
  | .null => "Null"
  | .uint _ => "UInt"
  | .int _ => "Int"
  | .double _ => "Double"
  | .bool _ => "Bool"
  | .blob _ => "Blob"
  | .string _ => "String"
  | .dateTime _ => "DateTime"
  | .list _ => "List"
  | .map _ => "Map"
  | .imap _ => "IMap"
  | .decimal _ => "Decimal"

/-- A text as a value. -/
def RpcValue.ofText (s : Bytes) : RpcValue := .ofVariant (.string s)

/-- `RpcList::fromStringList`. -/
def fromStringList (sl : List Bytes) : RpcValue := .ofVariant (.list (sl.map RpcValue.ofText))

namespace AclMountDef

/-- `AclMountDef::toRpcValue`. -/
def toRpcValue (md : AclMountDef) : RpcValue :=
  let m := [(ascii "mountPoint", RpcValue.ofText md.mountPoint)]
  .ofVariant (.map
    (if md.description ≠ [] then SortedMap.insert (ascii "description") (RpcValue.ofText md.description) m
      else m))

/-- `AclMountDef::fromRpcValue`: of a text it is the mount point. -/
def fromRpcValue (v : RpcValue) : AclMountDef :=
  if v.isString then ⟨v.toString, []⟩
  else if v.isMap then
    ⟨(v.asMap.valueOr (ascii "mountPoint") .invalid).toString,
      (v.asMap.valueOr (ascii "description") .invalid).toString⟩
  else ⟨[], []⟩

theorem fromRpcValue_toRpcValue (md : AclMountDef) : fromRpcValue md.toRpcValue = md := by
  obtain ⟨mountPoint, description⟩ := md
  cases description with
  | nil => rfl
  | cons b description => rfl

end AclMountDef

namespace AclPassword

/-- `std::regex_match` with `[0-9a-f]{40}`. -/
def isSha1Hex (s : Bytes) : Bool :=
  s.length = 40 ∧ ∀ b ∈ s, 0x30 ≤ b ∧ b ≤ 0x39 ∨ 0x61 ≤ b ∧ b ≤ 0x66

/-- The format that a password seems to have. -/
def formatOfText (s : Bytes) : AclPassword.Format := if isSha1Hex s then .Sha1 else .Plain

/-- `AclPassword::toRpcValue`. -/
def toRpcValue (p : AclPassword) : RpcValue :=
  .ofVariant (.map
    [(ascii "format", RpcValue.ofText (formatToString p.format)), (ascii "password", RpcValue.ofText p.password)])

/-- `AclPassword::fromRpcValue`. -/
def fromRpcValue (v : RpcValue) : AclPassword :=
  if v.isString then ⟨v.toString, formatOfText v.toString⟩
  else if v.isMap then
    let password := (v.asMap.valueOr (ascii "password") .invalid).asString
    let format := formatFromString (v.asMap.valueOr (ascii "format") .invalid).asString
    ⟨password, if format = .Invalid ∧ password ≠ [] then formatOfText password else format⟩
  else ⟨[], .Invalid⟩

/-- A password is read back, unless it has a text and no format. -/
theorem fromRpcValue_toRpcValue {p : AclPassword} (h : p.format = .Invalid → p.password = []) :
    fromRpcValue p.toRpcValue = p := by
  obtain ⟨password, format⟩ := p
  cases format with
  | Invalid =>
    obtain rfl : password = [] := h rfl
    rfl
  | Plain => rfl
  | Sha1 => rfl

end AclPassword

/-- The names under `roles`, and under `grants` as the key was called before. -/
def rolesOfMap (m : RpcMap) : List Bytes :=
  ((m.valueOr (ascii "roles") .invalid).asList ++ (m.valueOr (ascii "grants") .invalid).asList).map
    RpcValue.toString

theorem map_toString_ofText (sl : List Bytes) : (sl.map RpcValue.ofText).map RpcValue.toString = sl := by
  rw [List.map_map]
  exact List.map_id sl

namespace AclUser

/-- `AclUser::toRpcValue`. -/
def toRpcValue (u : AclUser) : RpcValue :=
  .ofVariant (.map
    [(ascii "password", u.password.toRpcValue), (ascii "roles", fromStringList u.roles)])

/-- `AclUser::fromRpcValue`. -/
def fromRpcValue (v : RpcValue) : AclUser :=
  if v.isMap then
    ⟨AclPassword.fromRpcValue (v.asMap.valueOr (ascii "password") .invalid), rolesOfMap v.asMap⟩
  else ⟨⟨[], .Invalid⟩, []⟩

theorem fromRpcValue_toRpcValue {u : AclUser}
    (h : u.password.format = .Invalid → u.password.password = []) :
    fromRpcValue u.toRpcValue = u := by
  have hroles : rolesOfMap u.toRpcValue.asMap = u.roles := by
    refine Eq.trans ?_ (map_toString_ofText u.roles)
    exact congrArg (List.map RpcValue.toString) (List.append_nil _)
  have hpassword := AclPassword.fromRpcValue_toRpcValue h
  obtain ⟨password, roles⟩ := u
  exact congrArg₂ AclUser.mk hpassword hroles

end AclUser

namespace AclRole

/-- `AclRole::toRpcValue`. -/
def toRpcValue (r : AclRole) : RpcValue :=
  let m : RpcMap := if r.roles ≠ [] then [(ascii "roles", fromStringList r.roles)] else []
  .ofVariant (.map (if r.profile.isMap then SortedMap.insert (ascii "profile") r.profile m else m))

/-- `AclRole::fromRpcValue`. -/
def fromRpcValue (v : RpcValue) : Except String (Option AclRole) :=
  match v.value with
  | .map m =>
    let profile := RpcMap.valueOr m (ascii "profile") .invalid
    .ok (some ⟨rolesOfMap m, if profile.isMap then profile else .invalid⟩)
  | .null => .ok none
  | _ => .error ("Invalid parameter type: " ++ v.typeName)

/-- A role is read back, if its profile is a map or invalid. -/
theorem fromRpcValue_toRpcValue {r : AclRole} (h : r.profile.isMap = true ∨ r.profile = .invalid) :
    fromRpcValue r.toRpcValue = .ok (some r) := by
  obtain ⟨roles, profile⟩ := r
  have hlist : (roles.map RpcValue.ofText ++ []).map RpcValue.toString = roles := by
    rw [List.append_nil, map_toString_ofText]
  rcases h with h | rfl
  · cases roles with
    | nil =>
      rw [toRpcValue, if_pos h]
      refine congrArg (fun profile => Except.ok (some (AclRole.mk [] profile))) ?_
      exact if_pos h
    | cons r roles =>
      rw [toRpcValue, if_pos h]
      refine congrArg₂ (fun roles profile => Except.ok (some (AclRole.mk roles profile))) hlist ?_
      exact if_pos h
  · cases roles with
    | nil => rfl
    | cons r roles =>
      exact congrArg (fun roles => Except.ok (some (AclRole.mk roles .invalid))) hlist

end AclRole

theorem AclAccessRule.fromRpcValue_toRpcValue (rule : AclAccessRule) :
    fromRpcValue rule.toRpcValue = rule := rfl

/-- Rules are read back, if all of them are valid. -/
theorem AclRoleAccessRules.fromRpcValue_toRpcValue {rules : AclRoleAccessRules}
    (h : ∀ rule ∈ rules, rule.isValid = true) : fromRpcValue (toRpcValue rules) = rules := by
  have hmap : (rules.map AclAccessRule.toRpcValue).map AclAccessRule.fromRpcValue = rules := by
    rw [List.map_map]
    exact List.map_id rules
  refine Eq.trans ?_ (List.filter_eq_self.mpr h)
  exact congrArg (List.filter (·.isValid)) hmap

/-! ## definitions as CPON reads them -/

theorem cponStd_ofText {s : Bytes} (h : s.length < cponMaxSize) : (RpcValue.ofText s).CponStd :=
  ⟨⟨SortedMap.sorted_nil, SortedMap.sorted_nil, List.forall_mem_nil _⟩, ⟨trivial, trivial⟩, h, trivial⟩

theorem cponStd_list {vs : List RpcValue} (h : ∀ v ∈ vs, v.CponStd) :
    (RpcValue.ofVariant (.list vs)).CponStd :=
  ⟨⟨SortedMap.sorted_nil, SortedMap.sorted_nil, List.forall_mem_nil _⟩, ⟨trivial, trivial⟩, trivial,
    eachList_iff.mpr h⟩

theorem cponStd_map {m : RpcMap} (hm : SortedMap.Sorted m)
    (h : ∀ e ∈ m, e.1.length < cponMaxSize ∧ e.2.CponStd) : (RpcValue.ofVariant (.map m)).CponStd :=
  ⟨⟨SortedMap.sorted_nil, SortedMap.sorted_nil, List.forall_mem_nil _⟩, ⟨trivial, trivial⟩,
    ⟨hm, fun e he => (h e he).1⟩, eachMap_iff.mpr fun e he => (h e he).2⟩

theorem cponStd_fromStringList {sl : List Bytes} (h : ∀ s ∈ sl, s.length < cponMaxSize) :
    (fromStringList sl).CponStd :=
  cponStd_list (List.forall_mem_map.mpr fun s hs => cponStd_ofText (h s hs))

theorem decoded_fromStringList (sl : List Bytes) : decoded (fromStringList sl) = fromStringList sl := by
  refine congrArg (fun vs => RpcValue.ofVariant (.list vs)) ?_
  rw [mapLeavesList_eq_map, List.map_map]
  exact List.map_congr_left fun _ _ => rfl

theorem AclMountDef.decoded_toRpcValue (md : AclMountDef) : decoded md.toRpcValue = md.toRpcValue := by
  obtain ⟨mountPoint, description⟩ := md
  cases description <;> rfl

theorem AclUser.decoded_toRpcValue (u : AclUser) : decoded u.toRpcValue = u.toRpcValue :=
  congrArg (fun roles => RpcValue.ofVariant
    (.map [(ascii "password", u.password.toRpcValue), (ascii "roles", roles)]))
    (decoded_fromStringList u.roles)

theorem AclRole.decoded_toRpcValue {r : AclRole}
    (h : r.profile.isMap = true → decoded r.profile = r.profile) :
    decoded r.toRpcValue = r.toRpcValue := by
  obtain ⟨roles, profile⟩ := r
  have hroles := decoded_fromStringList roles
  by_cases hprofile : profile.isMap = true
  · have hkept := h hprofile
    cases roles with
    | nil =>
      rw [toRpcValue, if_pos hprofile]
      exact congrArg (fun p => RpcValue.ofVariant (.map [(ascii "profile", p)])) hkept
    | cons r roles =>
      rw [toRpcValue, if_pos hprofile]
      exact congrArg₂ (fun p rs => RpcValue.ofVariant
        (.map [(ascii "profile", p), (ascii "roles", rs)])) hkept hroles
  · cases roles with
    | nil =>
      rw [toRpcValue, if_neg hprofile]
      rfl
    | cons r roles =>
      rw [toRpcValue, if_neg hprofile]
      exact congrArg (fun rs => RpcValue.ofVariant (.map [(ascii "roles", rs)])) hroles

theorem AclRoleAccessRules.decoded_toRpcValue (rules : AclRoleAccessRules) :
    decoded (toRpcValue rules) = toRpcValue rules := by
  refine congrArg (fun vs => RpcValue.ofVariant (.list vs)) ?_
  rw [mapLeavesList_eq_map, List.map_map]
  exact List.map_congr_left fun _ _ => rfl

/-! ## saving -/

/-- The files of `saveToConfigFiles`. -/
structure AclConfigFiles where
  mounts : Bytes
  users : Bytes
  roles : Bytes
  access : Bytes

namespace AclManager

variable {B : AclBackend}

section SaveConfigFile

variable {β : Type} (childNames : AclManager B → Except String (List Bytes) × AclManager B)
  (ask : AclManager B → Bytes → Except String β × AclManager B) (toRpcValue : β → RpcValue)

/-- The loop of `saveConfigFile`. -/
def collect (m : RpcMap) : List Bytes → AclManager B → Except String RpcMap × AclManager B
  | [], mng => (.ok m, mng)
  | n :: names, mng =>
    match ask mng n with
    | (.error e, mng) => (.error e, mng)
    | (.ok d, mng) => collect (SortedMap.insert n (toRpcValue d) m) names mng

/-- `saveConfigFile` of a node of definitions: the text that is written. -/
def saveConfigFile (mng : AclManager B) : Except String Bytes × AclManager B :=
  match childNames mng with
  | (.error e, mng) => (.error e, mng)
  | (.ok names, mng) =>
    match collect ask toRpcValue [] names mng with
    | (.error e, mng) => (.error e, mng)
    | (.ok m, mng) => (.ok (toCpon [0x09] (.ofVariant (.map m))), mng)

end SaveConfigFile

/-- `saveConfigFile` of `MountsAclNode`, `UsersAclNode`, `RolesAclNode` and `AccessAclNode`. -/
def saveMounts : AclManager B → Except String Bytes × AclManager B :=
  saveConfigFile mountDeviceIds mountDef AclMountDef.toRpcValue

def saveUsers : AclManager B → Except String Bytes × AclManager B :=
  saveConfigFile users user AclUser.toRpcValue

def saveRoles : AclManager B → Except String Bytes × AclManager B :=
  saveConfigFile roles role AclRole.toRpcValue

def saveAccess : AclManager B → Except String Bytes × AclManager B :=
  saveConfigFile accessRoles accessRoleRules AclRoleAccessRules.toRpcValue

/-- `saveToConfigFiles` of `EtcAclRootNode`. -/
def saveToConfigFiles (mng : AclManager B) : Except String AclConfigFiles × AclManager B :=
  match mng.saveMounts with
  | (.error e, mng) => (.error e, mng)
  | (.ok mounts, mng) =>
    match mng.saveUsers with
    | (.error e, mng) => (.error e, mng)
    | (.ok users, mng) =>
      match mng.saveRoles with
      | (.error e, mng) => (.error e, mng)
      | (.ok roles, mng) =>
        match mng.saveAccess with
        | (.error e, mng) => (.error e, mng)
        | (.ok access, mng) => (.ok ⟨mounts, users, roles, access⟩, mng)

end AclManager

/-! ## loading -/

/-- `AclManagerConfigFiles::aclConfig` of a file that can be opened. -/
def aclConfig (config_name : String) (file : Bytes) : Except String RpcValue :=
  match readFrom file with
  | .ok config _ =>
    if config.isValid then .ok config else .error ("Config " ++ config_name ++ " does not exist.")
  | .error (.parse _ msg) _ => .error msg
  | .error (.runtime msg) _ => .error msg
  | .error _ _ => .error ""

/-- The definitions of one kind in a file: the value under each name, read by `fromRpcValue`. -/
def AclTable.cponFile {β ω : Type} (config_name : String)
    (fromRpcValue : RpcValue → Except String β) (missing : RpcValue) (readOnly : String) :
    AclTable Bytes β ω where
  keys file := (aclConfig config_name file).map fun config => config.asMap.map (·.1)
  fetch file name := do
    let config ← aclConfig config_name file
    fromRpcValue (config.asMap.valueOr name missing)
  set file _ _ := (.error readOnly, file)

/-- `AclManagerConfigFiles::aclRole`: a role that is missing is a blank one. -/
def AclRole.ofConfig (v : RpcValue) : Except String AclRole :=
  (AclRole.fromRpcValue v).map (·.getD ⟨[], .invalid⟩)

/-- `AclManagerConfigFiles`. -/
def AclBackend.cponFiles : AclBackend where
  Mounts := Bytes
  Users := Bytes
  Roles := Bytes
  Rules := Bytes
  mounts := .cponFile "mounts.cpon" (fun v => .ok (AclMountDef.fromRpcValue v)) .invalid
    "Mount points definition is read only."
  users := .cponFile "users.cpon" (fun v => .ok (AclUser.fromRpcValue v)) .invalid
    "Users definition is read only."
  roles := .cponFile "roles.cpon" AclRole.ofConfig (.ofVariant .null)
    "Roles definition is read only."
  rules := .cponFile "access.cpon" (fun v => .ok (AclRoleAccessRules.fromRpcValue v)) .invalid
    "Role paths definition is read only."
  parentRoles file := ((aclConfig "roles.cpon" file).toOption.map fun config =>
    config.asMap.map (·.1)).getD []
  parentRoles_finite file name role h hne := by
    simp only [AclTable.cponFile, bind, Except.bind] at h
    cases hconfig : aclConfig "roles.cpon" file with
    | error e =>
      rw [hconfig] at h
      contradiction
    | ok config =>
      rw [hconfig] at h
      cases hfind : SortedMap.find? name config.asMap with
      | none =>
        simp only [RpcMap.valueOr, hfind, Option.getD_none] at h
        obtain rfl : (⟨[], .invalid⟩ : AclRole) = role := Except.ok.inj h
        contradiction
      | some v => exact SortedMap.key_mem_of_find? hfind

/-! ## what a file says -/

namespace SortedMap

variable {κ : Type u} {β : Type v} {γ : Type w} [Ord κ]

theorem find?_map (f : β → γ) (k : κ) (m : List (κ × β)) :
    find? k (m.map fun e => (e.1, f e.2)) = (find? k m).map f := by
  induction m with
  | nil => rfl
  | cons e m ih =>
    rw [List.map_cons, find?, find?]
    by_cases hk : compare k e.1 = .eq
    · rw [if_pos hk, if_pos hk, Option.map_some]
    · rw [if_neg hk, if_neg hk, ih]

theorem isSome_find?_iff [Std.LawfulEqOrd κ] {k : κ} {m : List (κ × β)} :
    (find? k m).isSome = true ↔ k ∈ m.map (·.1) := by
  induction m with
  | nil => simp [find?]
  | cons e m ih =>
    rw [find?, List.map_cons, List.mem_cons]
    by_cases hk : compare k e.1 = .eq
    · simp [Std.LawfulEqOrd.eq_of_compare hk]
    · have hne : k ≠ e.1 := fun h => hk (by rw [h, Std.ReflOrd.compare_self])
      rw [if_neg hk, ih, or_iff_right hne]

end SortedMap

/-- More steps change nothing once the search has ended. -/
theorem Worklist.walk_mono {α : Type u} {ε : Type v} [DecidableEq α] {next : α → Except ε (List α)}
    {fuel fuel' : Nat} {seen queue : List α} {r : Option ε × List α} (hle : fuel ≤ fuel')
    (h : walk next fuel seen queue = some r) : walk next fuel' seen queue = some r := by
  induction fuel generalizing fuel' seen queue with
  | zero =>
    cases queue with
    | nil => simpa using h
    | cons x queue => contradiction
  | succ fuel ih =>
    cases queue with
    | nil => simpa using h
    | cons x queue =>
      obtain ⟨fuel', rfl⟩ : ∃ n, fuel' = n + 1 := ⟨fuel' - 1, by omega⟩
      rw [walk] at h ⊢
      cases hx : next x with
      | error e => simpa [hx] using h
      | ok ys =>
        rw [hx] at h
        exact ih (Nat.le_of_succ_le_succ hle) h

section Source

open LazyMap

variable {β ω : Type} {src : Source Bytes β String} {b : Blank β} {toRpcValue : β → RpcValue}
  {file : Bytes}

/-- A file has the names of a source, each with the value of its definition. -/
def SavedIn (src : Source Bytes β String) (toRpcValue : β → RpcValue) (file : Bytes) : Prop :=
  ∃ names m, src.keys = .ok names ∧ SortedMap.Sorted m ∧ file = toCpon [0x09] (.ofVariant (.map m)) ∧
    (∀ n ∈ names, ∃ d, src.fetch n = .ok d ∧ SortedMap.find? n m = some (toRpcValue d)) ∧
    ∀ n, n ∉ names → SortedMap.find? n m = none

/-- Every definition of a source has a property, and its name has a size. -/
def EachDefinition (src : Source Bytes β String) (Q : β → Prop) : Prop :=
  ∀ names, src.keys = .ok names → ∀ n ∈ names, ∀ d, src.fetch n = .ok d →
    n.length < cponMaxSize ∧ Q d

theorem EachDefinition.imp {Q Q' : β → Prop} (h : EachDefinition src Q) (himp : ∀ d, Q d → Q' d) :
    EachDefinition src Q' :=
  fun names hnames n hn d hd => (h names hnames n hn d hd).imp_right (himp d)

/-- A definition is kept by CPON and read back. -/
def Kept (toRpcValue : β → RpcValue) (fromRpcValue : RpcValue → Except String β) (d : β) : Prop :=
  (toRpcValue d).CponStd ∧ fromRpcValue (decoded (toRpcValue d)) = .ok d

theorem AclMountDef.kept {md : AclMountDef} (h : md.toRpcValue.CponStd) :
    Kept AclMountDef.toRpcValue (fun v => .ok (AclMountDef.fromRpcValue v)) md :=
  ⟨h, md.decoded_toRpcValue.symm ▸ congrArg Except.ok md.fromRpcValue_toRpcValue⟩

theorem AclUser.kept {u : AclUser} (h : u.toRpcValue.CponStd)
    (hpassword : u.password.format = .Invalid → u.password.password = []) :
    Kept AclUser.toRpcValue (fun v => .ok (AclUser.fromRpcValue v)) u :=
  ⟨h, u.decoded_toRpcValue.symm ▸ congrArg Except.ok (AclUser.fromRpcValue_toRpcValue hpassword)⟩

theorem AclRole.kept {r : AclRole} (h : r.toRpcValue.CponStd)
    (hprofile : r.profile.isMap = true ∧ decoded r.profile = r.profile ∨ r.profile = .invalid) :
    Kept AclRole.toRpcValue AclRole.ofConfig r := by
  have hdecoded : r.profile.isMap = true → decoded r.profile = r.profile := by
    rcases hprofile with hprofile | hprofile
    · exact fun _ => hprofile.2
    · rw [hprofile]
      exact fun hmap => nomatch hmap
  refine ⟨h, ?_⟩
  rw [AclRole.decoded_toRpcValue hdecoded, AclRole.ofConfig,
    AclRole.fromRpcValue_toRpcValue (hprofile.imp_left And.left)]
  rfl

theorem AclRoleAccessRules.kept {rules : AclRoleAccessRules}
    (h : (AclRoleAccessRules.toRpcValue rules).CponStd) (hvalid : ∀ rule ∈ rules, rule.isValid = true) :
    Kept AclRoleAccessRules.toRpcValue (fun v => .ok (AclRoleAccessRules.fromRpcValue v)) rules :=
  ⟨h, (AclRoleAccessRules.decoded_toRpcValue rules).symm ▸
    congrArg Except.ok (AclRoleAccessRules.fromRpcValue_toRpcValue hvalid)⟩

theorem aclConfig_toCpon {config_name : String} {m : RpcMap}
    (h : (RpcValue.ofVariant (.map m)).CponStd) :
    aclConfig config_name (toCpon [0x09] (.ofVariant (.map m))) =
      .ok (.ofVariant (.map (m.map fun e => (e.1, decoded e.2)))) := by
  obtain ⟨c, hread, -⟩ := readFrom_toCpon h fun b hb => List.mem_singleton.mp hb ▸ (by decide : (0x09 : UInt8) ≤ CCpon.space)
  have hdecoded : decoded (.ofVariant (.map m)) =
      .ofVariant (.map (m.map fun e => (e.1, decoded e.2))) :=
    congrArg (fun m => RpcValue.ofVariant (.map m)) (mapLeavesMap_eq_map decodedLeaf m)
  rw [aclConfig, hread, hdecoded]
  rfl

/-- From a file that was saved for a source everything is answered as the source does. -/
theorem answer_cponFile {fromRpcValue : RpcValue → Except String β} (h : SavedIn src toRpcValue file)
    (hkeeps : EachDefinition src (Kept toRpcValue fromRpcValue)) (config_name : String) (missing : RpcValue)
    (readOnly : String) (n : Bytes) :
    ((AclTable.cponFile config_name fromRpcValue missing readOnly :
      AclTable Bytes β ω).source file).answer b n = src.answer b n := by
  obtain ⟨names, m, hnames, hm, rfl, hsaved, hother⟩ := h
  have hof : ∀ e ∈ m, ∃ d, e.1 ∈ names ∧ src.fetch e.1 = .ok d ∧ e.2 = toRpcValue d := by
    intro e he
    have hfind := SortedMap.find?_of_mem hm.keys_nodup he
    by_cases hmem : e.1 ∈ names
    · obtain ⟨d, hd, heq⟩ := hsaved e.1 hmem
      exact ⟨d, hmem, hd, Option.some.inj (hfind.symm.trans heq)⟩
    · rw [hother e.1 hmem] at hfind
      contradiction
  have hstd : (RpcValue.ofVariant (.map m)).CponStd := by
    refine cponStd_map hm fun e he => ?_
    obtain ⟨d, hmem, hd, heq⟩ := hof e he
    obtain ⟨hlength, hkept⟩ := hkeeps names hnames e.1 hmem d hd
    exact ⟨hlength, heq ▸ hkept.1⟩
  have hconfig := @aclConfig_toCpon config_name m hstd
  have hkeys : ∀ n, n ∈ (m.map fun e => (e.1, decoded e.2)).map (·.1) ↔ n ∈ names := by
    intro n
    rw [← SortedMap.isSome_find?_iff, SortedMap.find?_map, Option.isSome_map]
    by_cases hmem : n ∈ names
    · obtain ⟨d, -, hd⟩ := hsaved n hmem
      simp [hd, hmem]
    · simp [hother n hmem, hmem]
  have hok : ((AclTable.cponFile config_name fromRpcValue missing readOnly :
      AclTable Bytes β ω).source (toCpon [0x09] (.ofVariant (.map m)))).keys =
        .ok ((m.map fun e => (e.1, decoded e.2)).map (·.1)) := by
    change (aclConfig config_name _).map _ = _
    rw [hconfig]
    rfl
  rw [Source.answer, Source.answer, hok, hnames]
  by_cases hmem : n ∈ names
  · obtain ⟨d, hd, hfind⟩ := hsaved n hmem
    simp only [if_pos hmem, if_pos ((hkeys n).mpr hmem), hd]
    change (aclConfig config_name _ >>= fun config =>
      fromRpcValue (config.asMap.valueOr n missing)) = _
    rw [hconfig, ← (hkeeps names hnames n hmem d hd).2.2]
    refine congrArg fromRpcValue ?_
    change (SortedMap.find? n (m.map fun e => (e.1, decoded e.2))).getD missing = _
    rw [SortedMap.find?_map, hfind]
    rfl
  · simp only [if_neg hmem, if_neg (mt (hkeys n).mp hmem)]

end Source

namespace AclManager

variable {B : AclBackend}

/-! ## what is saved -/

section Serves

open LazyMap

variable {β : Type}

/-- In the states with `P` a manager lists the names of a source and answers like it. -/
structure Serves (P : AclManager B → Prop) (src : Source Bytes β String) (b : Blank β)
    (childNames : AclManager B → Except String (List Bytes) × AclManager B)
    (ask : AclManager B → Bytes → Except String β × AclManager B) : Prop where
  names : ∀ mng, P mng → P (childNames mng).2 ∧ ∀ names, (childNames mng).1 = .ok names →
    ∃ ks, src.keys = .ok ks ∧ ∀ n, n ∈ names ↔ n ∈ ks
  asked : ∀ mng n, P mng → (ask mng n).1 = src.answer b n ∧ P (ask mng n).2

variable {P : AclManager B → Prop} {src : Source Bytes β String} {b : Blank β}
  {childNames : AclManager B → Except String (List Bytes) × AclManager B}
  {ask : AclManager B → Bytes → Except String β × AclManager B} {toRpcValue : β → RpcValue}

theorem collect_ok (h : Serves P src b childNames ask) {names : List Bytes} {m m' : RpcMap}
    {mng mng' : AclManager B} (hP : P mng) (hm : SortedMap.Sorted m)
    (hcollect : collect ask toRpcValue m names mng = (.ok m', mng')) :
    P mng' ∧ SortedMap.Sorted m' ∧
      (∀ n ∈ names, ∃ d, src.answer b n = .ok d ∧ SortedMap.find? n m' = some (toRpcValue d)) ∧
      ∀ n, n ∉ names → SortedMap.find? n m' = SortedMap.find? n m := by
  induction names generalizing m mng with
  | nil =>
    obtain ⟨hm', hmng⟩ := Prod.mk.inj hcollect
    obtain rfl := Except.ok.inj hm'
    exact ⟨hmng ▸ hP, hm, List.forall_mem_nil _, fun _ _ => rfl⟩
  | cons n names ih =>
    obtain ⟨hanswer, hP'⟩ := h.asked mng n hP
    rw [collect] at hcollect
    generalize ask mng n = r at hanswer hP' hcollect
    obtain ⟨r, mng₁⟩ := r
    cases r with
    | error e => exact nomatch hcollect
    | ok d =>
      obtain ⟨hmng', hm', hnames, hother⟩ := ih hP' (SortedMap.sorted_insert hm) hcollect
      refine ⟨hmng', hm', fun n' hn' => ?_, fun n' hn' => ?_⟩
      · by_cases hmem : n' ∈ names
        · exact hnames n' hmem
        · obtain rfl : n' = n := (List.mem_cons.mp hn').resolve_right hmem
          exact ⟨d, hanswer.symm, (hother n' hmem).trans (SortedMap.find?_insert_self ..)⟩
      · obtain ⟨hne, hmem⟩ := not_or.mp (mt List.mem_cons.mpr hn')
        exact (hother n' hmem).trans (SortedMap.find?_insert_of_ne hne ..)

/-- A file that is saved has what the source answers. -/
theorem saveConfigFile_ok (h : Serves P src b childNames ask) {mng mng' : AclManager B}
    {file : Bytes} (hP : P mng)
    (hsave : saveConfigFile childNames ask toRpcValue mng = (.ok file, mng')) :
    P mng' ∧ SavedIn src toRpcValue file := by
  obtain ⟨hP₁, hchildren⟩ := h.names mng hP
  rw [saveConfigFile] at hsave
  generalize childNames mng = r at hP₁ hchildren hsave
  obtain ⟨r, mng₁⟩ := r
  cases r with
  | error e => exact nomatch hsave
  | ok names =>
    obtain ⟨ks, hks, hmem⟩ := hchildren names rfl
    simp only at hsave
    cases hcollect : collect ask toRpcValue [] names mng₁ with
    | mk r mng₂ =>
      rw [hcollect] at hsave
      cases r with
      | error e => exact nomatch hsave
      | ok m =>
        obtain ⟨hfile, rfl⟩ := Prod.mk.inj hsave
        obtain rfl := Except.ok.inj hfile
        obtain ⟨hP₂, hm, hnames, hother⟩ := collect_ok h hP₁ SortedMap.sorted_nil hcollect
        refine ⟨hP₂, ks, m, hks, hm, rfl, fun n hn => ?_, fun n hn => ?_⟩
        · obtain ⟨d, hd, hfind⟩ := hnames n ((hmem n).mpr hn)
          rw [Source.answer, hks] at hd
          exact ⟨d, (if_pos hn).symm.trans hd, hfind⟩
        · exact hother n (mt (hmem n).mp hn)

end Serves

section Saveable

open LazyMap

/-- The names that are listed are those of the source. -/
theorem names_enter {β : Type} {src : Source Bytes β String} {b : Blank β} (hb : b.Lawful)
    {cache : List (Bytes × β)} (h : LazyMap.Coherent src b cache) {names : List Bytes}
    (hnames : (enter src b cache).1.map (fun _ => (enter src b cache).2.map (·.1)) = .ok names) :
    ∃ ks, src.keys = .ok ks ∧ ∀ n, n ∈ names ↔ n ∈ ks := by
  obtain ⟨e, -, -, he⟩ | ⟨ks, cache', hks, he, hkeys, -⟩ := enter_cases hb h
  · rw [he] at hnames
    contradiction
  · rw [he] at hnames
    obtain rfl : cache'.map (·.1) = names := Except.ok.inj hnames
    exact ⟨ks, hks, fun n => SortedMap.isSome_find?_iff.symm.trans (hkeys n)⟩

/-- The caches of a manager are right, and these are its definitions. -/
def Holds (data : AclData B) (mng : AclManager B) : Prop :=
  mng.data = data ∧ ∃ asked, mng.Coherent asked

variable (data : AclData B)

theorem serves_mounts :
    Serves (Holds data) (B.mounts.source data.mounts) blankMountDef mountDeviceIds mountDef where
  names := by
    rintro mng ⟨rfl, asked, hc⟩
    exact ⟨⟨rfl, asked,
        { hc with mountDefs := LazyMap.coherent_enter blankMountDef_lawful hc.mountDefs }⟩,
      fun names => names_enter blankMountDef_lawful hc.mountDefs⟩
  asked := by
    rintro mng n ⟨rfl, asked, hc⟩
    exact ⟨(LazyMap.lookup_eq_answer blankMountDef_lawful hc.mountDefs n).1, rfl, asked,
      coherent_mountDef hc n⟩

theorem serves_users :
    Serves (Holds data) (B.users.source data.users) blankUser AclManager.users user where
  names := by
    rintro mng ⟨rfl, asked, hc⟩
    exact ⟨⟨rfl, asked, { hc with users := LazyMap.coherent_enter blankUser_lawful hc.users }⟩,
      fun names => names_enter blankUser_lawful hc.users⟩
  asked := by
    rintro mng n ⟨rfl, asked, hc⟩
    exact ⟨(user_eq_answer hc n).1, rfl, asked, (user_eq_answer hc n).2⟩

theorem serves_roles :
    Serves (Holds data) (B.roles.source data.roles) blankRole AclManager.roles role where
  names := by
    rintro mng ⟨rfl, asked, hc⟩
    exact ⟨⟨rfl, asked, { hc with roles := LazyMap.coherent_enter blankRole_lawful hc.roles }⟩,
      fun names => names_enter blankRole_lawful hc.roles⟩
  asked := by
    rintro mng n ⟨rfl, asked, hc⟩
    exact ⟨(role_eq_answer hc n).1, rfl, asked, (role_eq_answer hc n).2⟩

/-- The rules as they are stored. The cache marks those that it has fetched. -/
def noRules : Blank AclRoleAccessRules := ⟨[], fun _ => false⟩

theorem map_answer_rulesSource (m : AclManager B) (n : Bytes) :
    (m.rulesSource.answer blankRules n).map (·.1) =
      (B.rules.source m.data.rules).answer noRules n := by
  have hkeys : m.rulesSource.keys = (B.rules.source m.data.rules).keys := rfl
  have hfetch : m.rulesSource.fetch n = ((B.rules.source m.data.rules).fetch n).map (·, true) := rfl
  rw [Source.answer, Source.answer, hkeys, hfetch]
  cases (B.rules.source m.data.rules).keys with
  | error e => rfl
  | ok ks =>
    by_cases hn : n ∈ ks
    · simp only [if_pos hn]
      cases (B.rules.source m.data.rules).fetch n <;> rfl
    · simp only [if_neg hn]
      rfl

theorem serves_rules :
    Serves (Holds data) (B.rules.source data.rules) noRules accessRoles accessRoleRules where
  names := by
    rintro mng ⟨rfl, asked, hc⟩
    exact ⟨⟨rfl, asked, { hc with rules := LazyMap.coherent_enter blankRules_lawful hc.rules }⟩,
      fun names => names_enter blankRules_lawful hc.rules⟩
  asked := by
    rintro mng n ⟨rfl, asked, hc⟩
    exact ⟨(accessRoleRules_eq_answer hc n).1.trans (map_answer_rulesSource mng n), rfl, asked,
      (accessRoleRules_eq_answer hc n).2⟩

/-- The four files have what the sources answer. -/
theorem saveToConfigFiles_ok {mng : AclManager B} {asked : AskedRoles} (hc : mng.Coherent asked)
    {files : AclConfigFiles} (hsave : mng.saveToConfigFiles.1 = .ok files) :
    SavedIn (B.mounts.source mng.data.mounts) AclMountDef.toRpcValue files.mounts ∧
      SavedIn (B.users.source mng.data.users) AclUser.toRpcValue files.users ∧
      SavedIn (B.roles.source mng.data.roles) AclRole.toRpcValue files.roles ∧
      SavedIn (B.rules.source mng.data.rules) AclRoleAccessRules.toRpcValue files.access := by
  have hP : Holds mng.data mng := ⟨rfl, asked, hc⟩
  generalize mng.data = data at hP ⊢
  rw [saveToConfigFiles] at hsave
  rcases hmounts : mng.saveMounts with ⟨e | mounts, mng₁⟩
  · rw [hmounts] at hsave
    exact nomatch hsave
  obtain ⟨hP₁, hmounts'⟩ := saveConfigFile_ok (serves_mounts data) hP hmounts
  simp only [hmounts] at hsave
  rcases husers : mng₁.saveUsers with ⟨e | users, mng₂⟩
  · rw [husers] at hsave
    exact nomatch hsave
  obtain ⟨hP₂, husers'⟩ := saveConfigFile_ok (serves_users data) hP₁ husers
  simp only [husers] at hsave
  rcases hroles : mng₂.saveRoles with ⟨e | roles, mng₃⟩
  · rw [hroles] at hsave
    exact nomatch hsave
  obtain ⟨hP₃, hroles'⟩ := saveConfigFile_ok (serves_roles data) hP₂ hroles
  simp only [hroles] at hsave
  rcases haccess : mng₃.saveAccess with ⟨e | access, mng₄⟩
  · rw [haccess] at hsave
    exact nomatch hsave
  obtain ⟨-, haccess'⟩ := saveConfigFile_ok (serves_rules data) hP₃ haccess
  rw [haccess] at hsave
  obtain rfl := Except.ok.inj hsave
  exact ⟨hmounts', husers', hroles', haccess'⟩

/-- What the files can keep: names and definitions with a size and, when it is a map, a profile
that CPON keeps. A password that has no format is read with another one, and a rule without a path
or an access is not read. A role that is not listed has nothing below it. -/
structure Saveable (data : AclData B) : Prop where
  mounts : EachDefinition (B.mounts.source data.mounts) fun md => md.toRpcValue.CponStd
  users : EachDefinition (B.users.source data.users) fun u =>
    u.toRpcValue.CponStd ∧ (u.password.format = .Invalid → u.password.password = [])
  roles : EachDefinition (B.roles.source data.roles) fun r =>
    r.toRpcValue.CponStd ∧
      (r.profile.isMap = true ∧ decoded r.profile = r.profile ∨ r.profile = .invalid)
  missingRole : ∀ names, B.roles.keys data.roles = .ok names → ∀ n, n ∉ names →
    B.roles.fetch data.roles n = .ok ⟨[], .invalid⟩
  rules : EachDefinition (B.rules.source data.rules) fun rs =>
    (AclRoleAccessRules.toRpcValue rs).CponStd ∧ ∀ rule ∈ rs, rule.isValid = true

/-- The files answer what the definitions answer that they were saved from. -/
structure SameAnswers (data : AclData B) (files : AclConfigFiles) : Prop where
  mounts : ∀ n, (AclBackend.cponFiles.mounts.source files.mounts).answer blankMountDef n =
    (B.mounts.source data.mounts).answer blankMountDef n
  users : ∀ n, (AclBackend.cponFiles.users.source files.users).answer blankUser n =
    (B.users.source data.users).answer blankUser n
  roles : ∀ n, (AclBackend.cponFiles.roles.source files.roles).answer blankRole n =
    (B.roles.source data.roles).answer blankRole n
  rules : ∀ n, (AclBackend.cponFiles.rules.source files.access).answer noRules n =
    (B.rules.source data.rules).answer noRules n

theorem sameAnswers_of_saved {mng : AclManager B} {asked : AskedRoles} (hc : mng.Coherent asked)
    (hsaveable : Saveable mng.data) {files : AclConfigFiles}
    (hsave : mng.saveToConfigFiles.1 = .ok files) : SameAnswers mng.data files := by
  obtain ⟨hmounts, husers, hroles, hrules⟩ := saveToConfigFiles_ok hc hsave
  exact
    { mounts := answer_cponFile hmounts (hsaveable.mounts.imp fun _ => AclMountDef.kept) _ _ _
      users := answer_cponFile husers (hsaveable.users.imp fun _ h => AclUser.kept h.1 h.2) _ _ _
      roles := answer_cponFile hroles (hsaveable.roles.imp fun _ h => AclRole.kept h.1 h.2) _ _ _
      rules :=
        answer_cponFile hrules (hsaveable.rules.imp fun _ h => AclRoleAccessRules.kept h.1 h.2) _ _ _ }

end Saveable

/-! ## managers that answer alike -/

section Alike

open LazyMap

variable {B' : AclBackend}

/-- What the answers of a manager depend on is the same in another one. -/
structure Alike (m : AclManager B) (m' : AclManager B') : Prop where
  users : ∀ n, (B.users.source m.data.users).answer blankUser n =
    (B'.users.source m'.data.users).answer blankUser n
  rules : ∀ n, (m.rulesSource.answer blankRules n).map (·.1) =
    (m'.rulesSource.answer blankRules n).map (·.1)
  subroles : B.subroles m.data.roles = B'.subroles m'.data.roles
  aclUsers : LazyMap.Coherent (B.users.source m.data.users) blankUser m.m_cache.aclUsers
  aclUsers' : LazyMap.Coherent (B'.users.source m'.data.users) blankUser m'.m_cache.aclUsers
  aclAccessRules : LazyMap.Coherent m.rulesSource blankRules m.m_cache.aclAccessRules
  aclAccessRules' : LazyMap.Coherent m'.rulesSource blankRules m'.m_cache.aclAccessRules
  userFlattenRoles : m.m_cache.userFlattenRoles = m'.m_cache.userFlattenRoles
  azureUserGroups : m.m_azureUserGroups = m'.m_azureUserGroups
  ldapUserGroups : m.m_ldapUserGroups = m'.m_ldapUserGroups

theorem flatten_congr {t : B.Roles} {t' : B'.Roles} (h : B.subroles t = B'.subroles t')
    (roles : List Bytes) : B.flatten t roles = B'.flatten t' roles := by
  have hB := Worklist.walk_mono (Nat.le_max_left (B.roleNames t roles).length
    (B'.roleNames t' roles).length) (B.search_eq_flatten t roles)
  have hB' := Worklist.walk_mono (Nat.le_max_right (B.roleNames t roles).length
    (B'.roleNames t' roles).length) (B'.search_eq_flatten t' roles)
  rw [h] at hB
  exact Option.some.inj (hB.symm.trans hB')

variable {m : AclManager B} {m' : AclManager B'}

theorem Alike.user (h : Alike m m') (n : Bytes) :
    (m.user n).1 = (m'.user n).1 ∧ Alike (m.user n).2 (m'.user n).2 := by
  obtain ⟨heq, hc⟩ := LazyMap.lookup_eq_answer blankUser_lawful h.aclUsers n
  obtain ⟨heq', hc'⟩ := LazyMap.lookup_eq_answer blankUser_lawful h.aclUsers' n
  exact ⟨heq.trans ((h.users n).trans heq'.symm), { h with aclUsers := hc, aclUsers' := hc' }⟩

theorem Alike.accessRoleRules (h : Alike m m') (n : Bytes) :
    (m.accessRoleRules n).1 = (m'.accessRoleRules n).1 ∧
      Alike (m.accessRoleRules n).2 (m'.accessRoleRules n).2 := by
  obtain ⟨heq, hc⟩ := LazyMap.lookup_eq_answer blankRules_lawful h.aclAccessRules n
  obtain ⟨heq', hc'⟩ := LazyMap.lookup_eq_answer blankRules_lawful h.aclAccessRules' n
  refine ⟨?_, { h with aclAccessRules := hc, aclAccessRules' := hc' }⟩
  rw [AclManager.accessRoleRules, AclManager.accessRoleRules, heq, heq']
  exact h.rules n

theorem Alike.flattened (h : Alike m m') (key : Bytes) (roles : List Bytes) :
    (m.userFlattenRoles key roles).1 = (m'.userFlattenRoles key roles).1 ∧
      Alike (m.userFlattenRoles key roles).2 (m'.userFlattenRoles key roles).2 := by
  have hflatten := flatten_congr h.subroles roles
  rw [AclManager.userFlattenRoles, AclManager.userFlattenRoles, h.userFlattenRoles, hflatten]
  cases SortedMap.find? key m'.m_cache.userFlattenRoles with
  | some flat => exact ⟨rfl, h⟩
  | none => exact ⟨rfl, { h with userFlattenRoles := rfl }⟩

theorem Alike.flattenUserRoles (h : Alike m m') (user_name : Bytes) :
    (m.flattenUserRoles user_name).1 = (m'.flattenUserRoles user_name).1 ∧
      Alike (m.flattenUserRoles user_name).2 (m'.flattenUserRoles user_name).2 := by
  obtain ⟨heq, hafter⟩ := h.user user_name
  rw [AclManager.flattenUserRoles, AclManager.flattenUserRoles]
  generalize m.user user_name = r at heq hafter
  generalize m'.user user_name = r' at heq hafter
  obtain ⟨r, m₁⟩ := r
  obtain ⟨r', m₁'⟩ := r'
  obtain rfl : r = r' := heq
  cases r with
  | error e => exact ⟨rfl, hafter⟩
  | ok user_def =>
    have hldap : m₁.m_ldapUserGroups = m₁'.m_ldapUserGroups := hafter.ldapUserGroups
    have hazure : m₁.m_azureUserGroups = m₁'.m_azureUserGroups := hafter.azureUserGroups
    by_cases hvalid : user_def.isValid = true
    · simp only [if_pos hvalid]
      exact hafter.flattened user_name user_def.roles
    · simp only [if_neg hvalid, hldap, hazure]
      cases SortedMap.find? user_name m₁'.m_ldapUserGroups with
      | some groups => exact hafter.flattened (ldapKey user_name) groups
      | none =>
        cases SortedMap.find? user_name m₁'.m_azureUserGroups with
        | some groups => exact hafter.flattened (azureKey user_name) groups
        | none => exact ⟨rfl, hafter⟩

theorem Alike.firstMatchingRule (h : Alike m m') (shv_path method : Bytes) (roles : List Bytes) :
    (firstMatchingRule shv_path method roles m).1 = (firstMatchingRule shv_path method roles m').1 ∧
      Alike (firstMatchingRule shv_path method roles m).2
        (firstMatchingRule shv_path method roles m').2 := by
  induction roles generalizing m m' with
  | nil => exact ⟨rfl, h⟩
  | cons name roles ih =>
    obtain ⟨heq, hafter⟩ := h.accessRoleRules name
    rw [AclManager.firstMatchingRule, AclManager.firstMatchingRule]
    generalize m.accessRoleRules name = r at heq hafter
    generalize m'.accessRoleRules name = r' at heq hafter
    obtain ⟨r, m₁⟩ := r
    obtain ⟨r', m₁'⟩ := r'
    obtain rfl : r = r' := heq
    cases r with
    | error e => exact ⟨rfl, hafter⟩
    | ok rules =>
      simp only
      cases rules.find? (·.isPathMethodMatch shv_path method) with
      | some rule => exact ⟨rfl, hafter⟩
      | none => exact ih hafter

/-- The roles that an access is decided with. -/
theorem Alike.flattenClientRoles (h : Alike m m') (user_name : Bytes) (fromMaster : Bool) :
    (if fromMaster then m.flattenRole ROLE_MASTER_BROKER else m.flattenUserRoles user_name).1 =
        (if fromMaster then m'.flattenRole ROLE_MASTER_BROKER else m'.flattenUserRoles user_name).1 ∧
      Alike (if fromMaster then m.flattenRole ROLE_MASTER_BROKER else m.flattenUserRoles user_name).2
        (if fromMaster then m'.flattenRole ROLE_MASTER_BROKER
          else m'.flattenUserRoles user_name).2 := by
  cases fromMaster with
  | true => exact h.flattened (roleKey ROLE_MASTER_BROKER) [ROLE_MASTER_BROKER]
  | false => exact h.flattenUserRoles user_name

/-- A question for a grant is answered alike, and what comes after it too. -/
theorem Alike.accessGrantForShvPath (h : Alike m m') (user_name shv_path method : Bytes)
    (fromMaster : Bool) (ag : AccessGrant) :
    (m.accessGrantForShvPath user_name shv_path method fromMaster ag).1 =
        (m'.accessGrantForShvPath user_name shv_path method fromMaster ag).1 ∧
      Alike (m.accessGrantForShvPath user_name shv_path method fromMaster ag).2
        (m'.accessGrantForShvPath user_name shv_path method fromMaster ag).2 := by
  rw [AclManager.accessGrantForShvPath, AclManager.accessGrantForShvPath]
  by_cases hmaster : fromMaster ∧ AccessLevel.None.toInt < ag.accessLevel.toInt
  · rw [if_pos hmaster, if_pos hmaster]
    exact ⟨rfl, h⟩
  rw [if_neg hmaster, if_neg hmaster]
  by_cases happ : fromMaster ∧ shv_path = DIR_BROKER_APP
  · rw [if_pos happ, if_pos happ]
    exact ⟨rfl, h⟩
  rw [if_neg happ, if_neg happ]
  obtain ⟨heq, hafter⟩ := h.flattenClientRoles user_name fromMaster
  generalize (if fromMaster then m.flattenRole ROLE_MASTER_BROKER
    else m.flattenUserRoles user_name) = r at heq hafter
  generalize (if fromMaster then m'.flattenRole ROLE_MASTER_BROKER
    else m'.flattenUserRoles user_name) = r' at heq hafter
  obtain ⟨r, m₁⟩ := r
  obtain ⟨r', m₁'⟩ := r'
  obtain rfl : r = r' := heq
  cases r with
  | error e => exact ⟨rfl, hafter⟩
  | ok roles =>
    simp only
    by_cases hclient : shv_path = BROKER_CURRENT_CLIENT_SHV_PATH
    · rw [if_pos hclient, if_pos hclient]
      exact ⟨rfl, hafter⟩
    · rw [if_neg hclient, if_neg hclient]
      exact hafter.firstMatchingRule shv_path method roles

end Alike

/-! ## a broker on the files -/

/-- A question of `accessGrantForShvPath`. -/
structure GrantQuestion where
  user_name : Bytes
  shv_path : Bytes
  method : Bytes
  is_request_from_master_broker : Bool
  access_grant : AccessGrant

/-- The answers to one question after another. -/
def grants (m : AclManager B) : List GrantQuestion → List (Except String AccessGrant)
  | [] => []
  | q :: qs =>
    let r := m.accessGrantForShvPath q.user_name q.shv_path q.method q.is_request_from_master_broker
      q.access_grant
    r.1 :: r.2.grants qs

theorem Alike.grants {B' : AclBackend} {m : AclManager B} {m' : AclManager B'} (h : Alike m m')
    (qs : List GrantQuestion) : m.grants qs = m'.grants qs := by
  induction qs generalizing m m' with
  | nil => rfl
  | cons q qs ih =>
    obtain ⟨heq, hafter⟩ := h.accessGrantForShvPath q.user_name q.shv_path q.method
      q.is_request_from_master_broker q.access_grant
    exact congrArg₂ List.cons heq (ih hafter)

/-- The manager of a broker that is started on some files, with the groups of the logins of another. -/
def restartedOn (mng : AclManager B) (files : AclConfigFiles) : AclManager .cponFiles :=
  ⟨⟨files.mounts, files.users, files.roles, files.access⟩, .empty, mng.m_azureUserGroups,
    mng.m_ldapUserGroups⟩

/-- A role that is not in the file is a blank one. -/
theorem answer_cponFiles_roles (file : Bytes) (n : Bytes) :
    (AclBackend.cponFiles.roles.source file).answer blankRole n =
      AclBackend.cponFiles.roles.fetch file n := by
  have hkeys : (AclBackend.cponFiles.roles.source file).keys =
      (aclConfig "roles.cpon" file).map fun config => config.asMap.map (·.1) := rfl
  have hfetch : AclBackend.cponFiles.roles.fetch file n = (aclConfig "roles.cpon" file).bind fun config =>
      AclRole.ofConfig (config.asMap.valueOr n (.ofVariant .null)) := rfl
  have hsource : (AclBackend.cponFiles.roles.source file).fetch n =
      AclBackend.cponFiles.roles.fetch file n := rfl
  rw [LazyMap.Source.answer, hkeys, hsource, hfetch]
  cases aclConfig "roles.cpon" file with
  | error e => rfl
  | ok config =>
    simp only [Except.map, Except.bind]
    by_cases hn : n ∈ config.asMap.map (·.1)
    · rw [if_pos hn]
    · have hnone : SortedMap.find? n config.asMap = none :=
        Option.not_isSome_iff_eq_none.mp (mt SortedMap.isSome_find?_iff.mp hn)
      rw [if_neg hn, RpcMap.valueOr, hnone]
      rfl

theorem alike_restartedOn {mng : AclManager B} (hsaveable : Saveable mng.data)
    {names : List Bytes} (hnames : B.roles.keys mng.data.roles = .ok names) {files : AclConfigFiles}
    (hsame : SameAnswers mng.data files) :
    Alike mng.clearCache (mng.restartedOn files) where
  users n := (hsame.users n).symm
  rules n := by
    rw [map_answer_rulesSource, map_answer_rulesSource]
    exact (hsame.rules n).symm
  subroles := by
    funext n
    have hfetch : (B.roles.source mng.data.roles).answer blankRole n = B.roles.fetch mng.data.roles n := by
      have hkeys : (B.roles.source mng.data.roles).keys = .ok names := hnames
      rw [LazyMap.Source.answer, hkeys]
      by_cases hn : n ∈ names
      · exact if_pos hn
      · exact (if_neg hn).trans (hsaveable.missingRole names hnames n hn).symm
    exact congrArg (Except.map (·.roles))
      (hfetch.symm.trans ((hsame.roles n).symm.trans (answer_cponFiles_roles files.roles n)))
  aclUsers := LazyMap.coherent_nil _ _
  aclUsers' := LazyMap.coherent_nil _ _
  aclAccessRules := LazyMap.coherent_nil _ _
  aclAccessRules' := LazyMap.coherent_nil _ _
  userFlattenRoles := rfl
  azureUserGroups := rfl
  ldapUserGroups := rfl

/-- A broker over parsed files, with a user, two roles and a rule. -/
def devManager : AclManager .configFiles where
  data :=
    { mounts := [(ascii "d", ⟨ascii "test/d", []⟩)]
      users := [(ascii "u", ⟨⟨ascii "p", .Plain⟩, [ascii "a"]⟩)]
      roles := [(ascii "a", ⟨[ascii "b"], .ofVariant (.map [])⟩), (ascii "b", ⟨[], .invalid⟩)]
      rules := [(ascii "b", [⟨ascii "test/**", [], ascii "dev"⟩])] }
  m_cache := .empty
  m_azureUserGroups := []
  m_ldapUserGroups := []

/-- Definitions in parsed files are the entries of the files. -/
theorem eachDefinition_configFile {β ω : Type} {t : List (Bytes × β)} {Q : β → Prop}
    (h : ∀ e ∈ t, e.1.length < cponMaxSize ∧ Q e.2) (blank : β) (readOnly : String) :
    EachDefinition ((AclTable.configFile blank readOnly :
      AclTable (List (Bytes × β)) β ω).source t) Q := by
  intro names hnames n hn d hd
  obtain rfl : t.map (·.1) = names := Except.ok.inj hnames
  obtain rfl : (SortedMap.find? n t).getD blank = d := Except.ok.inj hd
  obtain ⟨d, hfind⟩ := Option.isSome_iff_exists.mp (SortedMap.isSome_find?_iff.mpr hn)
  rw [hfind, Option.getD_some]
  exact h (n, d) (SortedMap.mem_of_find? hfind)

theorem saveable_devManager : Saveable devManager.data where
  mounts := by
    refine eachDefinition_configFile (List.forall_mem_singleton.mpr ⟨by decide, ?_⟩) _ _
    exact cponStd_map (by decide) (List.forall_mem_singleton.mpr
      ⟨by decide, cponStd_ofText (by decide)⟩)
  users := by
    refine eachDefinition_configFile (List.forall_mem_singleton.mpr ⟨by decide, ?_, nofun⟩) _ _
    have hpassword : (AclPassword.toRpcValue ⟨ascii "p", .Plain⟩).CponStd :=
      cponStd_map (by decide) (List.forall_mem_cons.mpr ⟨⟨by decide, cponStd_ofText (by decide)⟩,
        List.forall_mem_singleton.mpr ⟨by decide, cponStd_ofText (by decide)⟩⟩)
    exact cponStd_map (by decide) (List.forall_mem_cons.mpr ⟨⟨by decide, hpassword⟩,
      List.forall_mem_singleton.mpr ⟨by decide, cponStd_fromStringList (by decide)⟩⟩)
  roles := by
    refine eachDefinition_configFile (List.forall_mem_cons.mpr ⟨⟨by decide, ?_, .inl ⟨rfl, rfl⟩⟩,
      List.forall_mem_singleton.mpr ⟨by decide, ?_, .inr rfl⟩⟩) _ _
    · exact cponStd_map (by decide) (List.forall_mem_cons.mpr
        ⟨⟨by decide, cponStd_map SortedMap.sorted_nil (List.forall_mem_nil _)⟩,
          List.forall_mem_singleton.mpr ⟨by decide, cponStd_fromStringList (by decide)⟩⟩)
    · exact cponStd_map SortedMap.sorted_nil (List.forall_mem_nil _)
  missingRole names hnames n hn := by
    obtain rfl : devManager.data.roles.map (·.1) = names := Except.ok.inj hnames
    have hnone : SortedMap.find? n devManager.data.roles = none :=
      Option.not_isSome_iff_eq_none.mp (mt SortedMap.isSome_find?_iff.mp hn)
    exact congrArg (fun r => Except.ok (r.getD ⟨[], .invalid⟩)) hnone
  rules := by
    refine eachDefinition_configFile (List.forall_mem_singleton.mpr ⟨by decide, ?_, by decide⟩) _ _
    refine cponStd_list (List.forall_mem_singleton.mpr (cponStd_map (by decide) ?_))
    exact List.forall_mem_cons.mpr ⟨⟨by decide, cponStd_ofText (by decide)⟩,
      List.forall_mem_cons.mpr ⟨⟨by decide, cponStd_ofText (by decide)⟩,
        List.forall_mem_singleton.mpr ⟨by decide, cponStd_ofText (by decide)⟩⟩⟩

theorem isOk_saveToConfigFiles_devManager : devManager.saveToConfigFiles.1.isOk = true := by
  decide +kernel

end AclManager

end LibShv
