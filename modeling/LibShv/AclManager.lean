import LibShv.AccessGrant
import LibShv.ShvPath
import LibShv.Lib.LazyMap
import LibShv.Lib.Worklist

/-!
# LibShv.AclManager

The access control of the broker (`aclmanager.cpp`): the definitions of users,
roles and access rules, which a derived class reads from files or from a
database, the caches in front of it, and the grant of a user on a path.

The exception that leaves a method is the error of its result; the caches are
what the method has made of them by then. Log output is left out.
-/

namespace LibShv

/-! ## definitions -/

inductive AclPassword.Format where
  | Invalid
  | Plain
  | Sha1
deriving DecidableEq

/-- `AclPassword`. -/
structure AclPassword where
  password : Bytes
  format : AclPassword.Format
deriving DecidableEq

/-- `AclUser`. -/
structure AclUser where
  password : AclPassword
  roles : List Bytes
deriving DecidableEq

/-- `AclRole`. -/
structure AclRole where
  roles : List Bytes
  profile : RpcValue

/-- `AclAccessRule`. -/
structure AclAccessRule where
  path : Bytes
  method : Bytes
  access : Bytes
deriving DecidableEq

abbrev AclRoleAccessRules := List AclAccessRule

/-- `AclMountDef`. -/
structure AclMountDef where
  mountPoint : Bytes
  description : Bytes
deriving DecidableEq

def AclUser.isValid (u : AclUser) : Bool := u.password.format ≠ .Invalid

def AclMountDef.isValid (md : AclMountDef) : Bool := md.mountPoint ≠ []

/-! ## rules -/

namespace AclAccessRule

/-- `is_wild_card_pattern`. -/
def isWildCardPattern (path : Bytes) : Bool :=
  path = ascii "**" ∨ (ascii "/**").isSuffixOf path

/-- The path before the asterisks and the delimiter. -/
def wildCardDir (path : Bytes) : Bytes :=
  let sub_path := path.take (path.length - 2)
  if sub_path = [] then sub_path else sub_path.take (sub_path.length - 1)

/-- `AclAccessRule::isPathMethodMatch`. -/
def isPathMethodMatch (rule : AclAccessRule) (shv_path method : Bytes) : Bool :=
  if isWildCardPattern rule.path then
    startsWithPath shv_path (wildCardDir rule.path) ∧ (rule.method = [] ∨ rule.method = method)
  else shv_path = rule.path ∧ (rule.method = [] ∨ rule.method = method)

end AclAccessRule

/-! ## the data -/

/-- One kind of definitions in the data of a derived class of `AclManager`: the
virtual functions that list the names, read a definition and change one. -/
structure AclTable (τ β ω : Type) where
  keys : τ → Except String (List Bytes)
  fetch : τ → Bytes → Except String β
  set : τ → Bytes → ω → Except String Unit × τ

def AclTable.source {τ β ω : Type} (T : AclTable τ β ω) (t : τ) : LazyMap.Source Bytes β String :=
  ⟨T.keys t, T.fetch t⟩

/-- The virtual functions of `AclManager`, with a table for each kind of
definitions: `aclMountDeviceIds`, `aclMountDef` and `aclSetMountDef`, and so on.
The roles that have subroles are finitely many. -/
structure AclBackend where
  Mounts : Type
  Users : Type
  Roles : Type
  Rules : Type
  mounts : AclTable Mounts AclMountDef AclMountDef
  users : AclTable Users AclUser AclUser
  roles : AclTable Roles AclRole (Option AclRole)
  rules : AclTable Rules AclRoleAccessRules AclRoleAccessRules
  parentRoles : Roles → List Bytes
  parentRoles_finite : ∀ t name role, roles.fetch t name = .ok role → role.roles ≠ [] →
    name ∈ parentRoles t

/-- The definitions as they are stored. -/
structure AclData (B : AclBackend) where
  mounts : B.Mounts
  users : B.Users
  roles : B.Roles
  rules : B.Rules

namespace AclBackend

variable (B : AclBackend) (t : B.Roles)

/-- The roles directly below a role. -/
def subroles (name : Bytes) : Except String (List Bytes) := (B.roles.fetch t name).map (·.roles)

/-- The subroles of a role, none if it cannot be read. -/
def graph (name : Bytes) : List Bytes := ((B.subroles t name).toOption).getD []

/-- All the names that can come up when roles are flattened. -/
def roleNames (roles : List Bytes) : List Bytes :=
  roles ++ (B.parentRoles t).flatMap (B.graph t)

/-- The loop of `AclManager::userFlattenRoles`: the exception that ended the
loop, if one did, and the list as far as it got. -/
def flatten (roles : List Bytes) : Option String × List Bytes :=
  (Worklist.search (B.subroles t) (B.roleNames t roles).length roles).getD (none, [])

/-- The roles that flattening some roles comes across can all be read. -/
def Readable (roles : List Bytes) : Prop :=
  ∀ name, Worklist.Reachable (B.graph t) roles name → ∃ role, B.roles.fetch t name = .ok role

/-- The loop ends on every graph of roles. -/
theorem search_isSome (roles : List Bytes) :
    (Worklist.search (B.subroles t) (B.roleNames t roles).length roles).isSome := by
  refine Worklist.search_isSome ⟨fun x hx => List.mem_append_left _ hx, ?_⟩
  intro x _ ys hys y hy
  refine List.mem_append_right _ (List.mem_flatMap.mpr ⟨x, ?_, ?_⟩)
  · rw [subroles] at hys
    cases hrole : B.roles.fetch t x with
    | error e =>
      rw [hrole] at hys
      contradiction
    | ok role =>
      rw [hrole] at hys
      obtain rfl : role.roles = ys := Except.ok.inj hys
      exact B.parentRoles_finite t x role hrole (List.ne_nil_of_mem hy)
  · rw [graph, hys]
    exact hy

theorem search_eq_flatten (roles : List Bytes) :
    Worklist.search (B.subroles t) (B.roleNames t roles).length roles = some (B.flatten t roles) := by
  obtain ⟨r, hr⟩ := Option.isSome_iff_exists.mp (B.search_isSome t roles)
  rw [flatten, hr, Option.getD_some]

/-- With the roles readable the loop runs to its end, and its list is that of a
breadth-first search. -/
theorem flatten_breadthFirst {roles : List Bytes} (h : B.Readable t roles) :
    (B.flatten t roles).1 = none ∧
      Worklist.BreadthFirst (B.graph t) roles (B.flatten t roles).2 := by
  refine Worklist.search_breadthFirst (fun name hname => ?_) (B.search_eq_flatten t roles)
  obtain ⟨role, hrole⟩ := h name hname
  rw [graph, subroles, hrole]
  rfl

end AclBackend

/-! ## the manager -/

/-- `AclManager::Cache`. -/
structure AclCache where
  aclMountDefs : List (Bytes × AclMountDef)
  aclUsers : List (Bytes × AclUser)
  aclRoles : List (Bytes × AclRole)
  aclAccessRules : List (Bytes × (AclRoleAccessRules × Bool))
  userFlattenRoles : List (Bytes × List Bytes)

def AclCache.empty : AclCache := ⟨[], [], [], [], []⟩

/-- `AclManager` over the data of a derived class. -/
structure AclManager (B : AclBackend) where
  data : AclData B
  m_cache : AclCache
  m_azureUserGroups : List (Bytes × List Bytes)
  m_ldapUserGroups : List (Bytes × List Bytes)

namespace AclManager

variable {B : AclBackend} (m : AclManager B)

/-- `clearCache`. -/
def clearCache : AclManager B := { m with m_cache := .empty }

/-! ### cached definitions -/

def blankMountDef : LazyMap.Blank AclMountDef := ⟨⟨[], []⟩, AclMountDef.isValid⟩
def blankUser : LazyMap.Blank AclUser := ⟨⟨⟨[], .Invalid⟩, []⟩, AclUser.isValid⟩
/-- A role is read again whenever it is asked for. -/
def blankRole : LazyMap.Blank AclRole := ⟨⟨[], .invalid⟩, fun _ => false⟩
def blankRules : LazyMap.Blank (AclRoleAccessRules × Bool) := ⟨([], false), (·.2)⟩

/-- Access rules are cached with a flag. -/
def rulesSource : LazyMap.Source Bytes (AclRoleAccessRules × Bool) String :=
  ⟨B.rules.keys m.data.rules, fun name => (B.rules.fetch m.data.rules name).map (·, true)⟩

/-- `AclManager::mountDef`. -/
def mountDef (device_id : Bytes) : Except String AclMountDef × AclManager B :=
  let r := LazyMap.lookup (B.mounts.source m.data.mounts) blankMountDef device_id m.m_cache.aclMountDefs
  (r.1, { m with m_cache := { m.m_cache with aclMountDefs := r.2 } })

/-- `AclManager::user`. -/
def user (user_name : Bytes) : Except String AclUser × AclManager B :=
  let r := LazyMap.lookup (B.users.source m.data.users) blankUser user_name m.m_cache.aclUsers
  (r.1, { m with m_cache := { m.m_cache with aclUsers := r.2 } })

/-- `AclManager::role`. -/
def role (role_name : Bytes) : Except String AclRole × AclManager B :=
  let r := LazyMap.lookup (B.roles.source m.data.roles) blankRole role_name m.m_cache.aclRoles
  (r.1, { m with m_cache := { m.m_cache with aclRoles := r.2 } })

/-- `AclManager::accessRoleRules`. -/
def accessRoleRules (role_name : Bytes) : Except String AclRoleAccessRules × AclManager B :=
  let r := LazyMap.lookup m.rulesSource blankRules role_name m.m_cache.aclAccessRules
  (r.1.map (·.1), { m with m_cache := { m.m_cache with aclAccessRules := r.2 } })

/-- `AclManager::mountDeviceIds`, `users`, `roles` and `accessRoles` enter the keys of a cache. -/
def mountDeviceIds : Except String (List Bytes) × AclManager B :=
  let r := LazyMap.enter (B.mounts.source m.data.mounts) blankMountDef m.m_cache.aclMountDefs
  (r.1.map fun _ => r.2.map (·.1), { m with m_cache := { m.m_cache with aclMountDefs := r.2 } })

def users : Except String (List Bytes) × AclManager B :=
  let r := LazyMap.enter (B.users.source m.data.users) blankUser m.m_cache.aclUsers
  (r.1.map fun _ => r.2.map (·.1), { m with m_cache := { m.m_cache with aclUsers := r.2 } })

def roles : Except String (List Bytes) × AclManager B :=
  let r := LazyMap.enter (B.roles.source m.data.roles) blankRole m.m_cache.aclRoles
  (r.1.map fun _ => r.2.map (·.1), { m with m_cache := { m.m_cache with aclRoles := r.2 } })

def accessRoles : Except String (List Bytes) × AclManager B :=
  let r := LazyMap.enter m.rulesSource blankRules m.m_cache.aclAccessRules
  (r.1.map fun _ => r.2.map (·.1), { m with m_cache := { m.m_cache with aclAccessRules := r.2 } })

/-! ### flattened roles -/

/-- `AclManager::userFlattenRoles`. The list is entered in the cache before the
loop fills it, so it stays there when the loop ends with an exception. -/
def userFlattenRoles (user_name : Bytes) (roles : List Bytes) :
    Except String (List Bytes) × AclManager B :=
  match SortedMap.find? user_name m.m_cache.userFlattenRoles with
  | some flattenRoles => (.ok flattenRoles, m)
  | none =>
    let r := B.flatten m.data.roles roles
    let cache := SortedMap.insert user_name r.2 m.m_cache.userFlattenRoles
    (match r.1 with | some e => .error e | none => .ok r.2,
      { m with m_cache := { m.m_cache with userFlattenRoles := cache } })

def roleKey (role : Bytes) : Bytes := ascii "_Role#Key:" ++ role
def ldapKey (user_name : Bytes) : Bytes := ascii "_Ldap#Key:" ++ user_name
def azureKey (user_name : Bytes) : Bytes := ascii "_Azure#Key:" ++ user_name

/-- `AclManager::flattenRole`. -/
def flattenRole (role : Bytes) : Except String (List Bytes) × AclManager B :=
  m.userFlattenRoles (roleKey role) [role]

/-- `AclManager::ldapUserFlattenRoles`. -/
def ldapUserFlattenRoles (user_name : Bytes) (roles : List Bytes) :
    Except String (List Bytes) × AclManager B :=
  m.userFlattenRoles (ldapKey user_name) roles

/-- `AclManager::azureUserFlattenRoles`. -/
def azureUserFlattenRoles (user_name : Bytes) (roles : List Bytes) :
    Except String (List Bytes) × AclManager B :=
  m.userFlattenRoles (azureKey user_name) roles

/-! ### setters -/

/-- `AclManager::setMountDef`. -/
def setMountDef (device_id : Bytes) (v : AclMountDef) : Except String Unit × AclManager B :=
  let r := B.mounts.set m.data.mounts device_id v
  let m := { m with data := { m.data with mounts := r.2 } }
  match r.1 with
  | .error e => (.error e, m)
  | .ok () => (.ok (), { m with m_cache := { m.m_cache with aclMountDefs := [] } })

/-- `AclManager::setUser`. -/
def setUser (user_name : Bytes) (u : AclUser) : Except String Unit × AclManager B :=
  let r := B.users.set m.data.users user_name u
  let m := { m with data := { m.data with users := r.2 } }
  match r.1 with
  | .error e => (.error e, m)
  | .ok () => (.ok (), { m with m_cache := { m.m_cache with aclUsers := [], userFlattenRoles := [] } })

/-- `AclManager::setRole`. -/
def setRole (role_name : Bytes) (v : Option AclRole) : Except String Unit × AclManager B :=
  let r := B.roles.set m.data.roles role_name v
  let m := { m with data := { m.data with roles := r.2 } }
  match r.1 with
  | .error e => (.error e, m)
  | .ok () => (.ok (), { m with m_cache := { m.m_cache with aclRoles := [], userFlattenRoles := [] } })

/-- `AclManager::setAccessRoleRules`. -/
def setAccessRoleRules (role_name : Bytes) (v : AclRoleAccessRules) : Except String Unit × AclManager B :=
  let r := B.rules.set m.data.rules role_name v
  let m := { m with data := { m.data with rules := r.2 } }
  match r.1 with
  | .error e => (.error e, m)
  | .ok () => (.ok (), { m with m_cache := { m.m_cache with aclAccessRules := [] } })

/-- `std::map::emplace`: an entry that is there stays. -/
def emplace (k : Bytes) (v : List Bytes) (groups : List (Bytes × List Bytes)) :
    List (Bytes × List Bytes) :=
  match SortedMap.find? k groups with
  | some _ => groups
  | none => SortedMap.insert k v groups

/-- `AclManager::setGroupForAzureUser`. -/
def setGroupForAzureUser (user_name : Bytes) (group_name : List Bytes) : AclManager B :=
  { m with m_azureUserGroups := emplace user_name group_name m.m_azureUserGroups }

/-- `AclManager::setGroupForLdapUser`. -/
def setGroupForLdapUser (user_name : Bytes) (group_name : List Bytes) : AclManager B :=
  { m with m_ldapUserGroups := emplace user_name group_name m.m_ldapUserGroups }

/-- `AclManager::reload`, after which a derived class may find other data. -/
def reload (data : AclData B) : AclManager B := { m.clearCache with data := data }

/-! ### grants -/

def DIR_BROKER_APP : Bytes := ascii ".broker/app"
def BROKER_CURRENT_CLIENT_SHV_PATH : Bytes := ascii ".broker/currentClient"
def ROLE_MASTER_BROKER : Bytes := ascii "masterBroker"

/-- The roles of a user who is defined, or else of the groups from a login. -/
def flattenUserRoles (user_name : Bytes) : Except String (List Bytes) × AclManager B :=
  match m.user user_name with
  | (.error e, m) => (.error e, m)
  | (.ok user_def, m) =>
    if user_def.isValid then m.userFlattenRoles user_name user_def.roles
    else
      match SortedMap.find? user_name m.m_ldapUserGroups with
      | some groups => m.ldapUserFlattenRoles user_name groups
      | none =>
        match SortedMap.find? user_name m.m_azureUserGroups with
        | some groups => m.azureUserFlattenRoles user_name groups
        | none => (.ok [], m)

/-- The loops of `accessGrantForShvPath`: the first rule that matches. -/
def firstMatchingRule (shv_path method : Bytes) :
    List Bytes → AclManager B → Except String AccessGrant × AclManager B
  | [], m => (.ok .none, m)
  | flatten_role :: flatten_roles, m =>
    match m.accessRoleRules flatten_role with
    | (.error e, m) => (.error e, m)
    | (.ok role_rules, m) =>
      match role_rules.find? (·.isPathMethodMatch shv_path method) with
      | some access_rule => (.ok (.fromShv2Access access_rule.access 0), m)
      | none => firstMatchingRule shv_path method flatten_roles m

/-- `AclManager::accessGrantForShvPath`. -/
def accessGrantForShvPath (user_name shv_path method : Bytes) (is_request_from_master_broker : Bool)
    (access_grant : AccessGrant) : Except String AccessGrant × AclManager B :=
  if is_request_from_master_broker ∧ AccessLevel.None.toInt < access_grant.accessLevel.toInt then
    (.ok access_grant, m)
  else if is_request_from_master_broker ∧ shv_path = DIR_BROKER_APP then
    (.ok ⟨.Write, []⟩, m)
  else
    let r := if is_request_from_master_broker then m.flattenRole ROLE_MASTER_BROKER
      else m.flattenUserRoles user_name
    match r with
    | (.error e, m) => (.error e, m)
    | (.ok flatten_user_roles, m) =>
      if shv_path = BROKER_CURRENT_CLIENT_SHV_PATH then (.ok ⟨.Write, []⟩, m)
      else firstMatchingRule shv_path method flatten_user_roles m

end AclManager

/-! ## definitions in files -/

/-- A file of definitions, read once. -/
def AclTable.configFile {β ω : Type} (blank : β) (readOnly : String) :
    AclTable (List (Bytes × β)) β ω where
  keys t := .ok (t.map (·.1))
  fetch t name := .ok ((SortedMap.find? name t).getD blank)
  set t _ _ := (.error readOnly, t)

/-- `AclManagerConfigFiles`, with the files already parsed. -/
def AclBackend.configFiles : AclBackend where
  Mounts := List (Bytes × AclMountDef)
  Users := List (Bytes × AclUser)
  Roles := List (Bytes × AclRole)
  Rules := List (Bytes × AclRoleAccessRules)
  mounts := .configFile ⟨[], []⟩ "Mount points definition is read only."
  users := .configFile ⟨⟨[], .Invalid⟩, []⟩ "Users definition is read only."
  roles := .configFile ⟨[], .invalid⟩ "Roles definition is read only."
  rules := .configFile [] "Role paths definition is read only."
  parentRoles t := t.map (·.1)
  parentRoles_finite t name role h hne := by
    cases hf : SortedMap.find? name t with
    | none =>
      simp only [AclTable.configFile, hf, Option.getD_none, Except.ok.injEq] at h
      rw [← h] at hne
      contradiction
    | some r => exact SortedMap.key_mem_of_find? hf

end LibShv
