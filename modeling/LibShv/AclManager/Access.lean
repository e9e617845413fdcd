import LibShv.AclManager.Caches

/-!
# LibShv.AclManager.Access

The grant of a user: the first rule that matches, with the rules in the order of
the flattened roles, and these in the order of a breadth-first search of the
graph of roles.
-/

namespace LibShv.AclManager

variable {B : AclBackend} {asked : AskedRoles} {m : AclManager B}

/-- The roles of a user and the key they are flattened under: those of the
definition, or of the groups from a login if there is no valid definition. -/
def assignedRoles (m : AclManager B) (user_name : Bytes) (u : AclUser) :
    Option (Bytes × List Bytes) :=
  if u.isValid then some (user_name, u.roles)
  else
    match SortedMap.find? user_name m.m_ldapUserGroups with
    | some groups => some (ldapKey user_name, groups)
    | none => (SortedMap.find? user_name m.m_azureUserGroups).map (azureKey user_name, ·)

/-- The grant of the first rule that matches, and no grant if there is none. -/
def grantOfRules (rules : List AclAccessRule) (shv_path method : Bytes) : AccessGrant :=
  match rules.find? (·.isPathMethodMatch shv_path method) with
  | some access_rule => .fromShv2Access access_rule.access 0
  | none => .none

/-- The search through the roles is a search through all their rules. -/
theorem firstMatchingRule_eq (h : Coherent asked m) (shv_path method : Bytes)
    (rules : Bytes → AclRoleAccessRules) (roles : List Bytes)
    (hrules : ∀ name ∈ roles,
      (m.rulesSource.answer blankRules name).map (·.1) = .ok (rules name)) :
    (firstMatchingRule shv_path method roles m).1 =
      .ok (grantOfRules (roles.flatMap rules) shv_path method) := by
  induction roles generalizing m with
  | nil => rfl
  | cons name roles ih =>
    obtain ⟨hanswer, hcoherent⟩ := accessRoleRules_eq_answer h name
    rw [hrules name List.mem_cons_self] at hanswer
    have hdata : (m.accessRoleRules name).2.rulesSource = m.rulesSource := rfl
    rw [firstMatchingRule, grantOfRules, List.flatMap_cons, List.find?_append]
    generalize m.accessRoleRules name = r at hanswer hcoherent hdata
    obtain ⟨r, m'⟩ := r
    obtain rfl : r = .ok (rules name) := hanswer
    simp only
    cases hfind : (rules name).find? (·.isPathMethodMatch shv_path method) with
    | some access_rule => rfl
    | none =>
      rw [ih hcoherent fun name' hname' => ?_, Option.none_or, grantOfRules]
      rw [hdata]
      exact hrules name' (List.mem_cons_of_mem _ hname')

/-- The roles of a user, of whatever kind they are, are flattened by `userFlattenRoles`. -/
theorem flattenUserRoles_of_user {m' : AclManager B} {user_name : Bytes} {u : AclUser}
    (hu : m.user user_name = (.ok u, m')) :
    m.flattenUserRoles user_name =
      match m'.assignedRoles user_name u with
      | some (key, rs) => m'.userFlattenRoles key rs
      | none => (.ok [], m') := by
  rw [flattenUserRoles, hu, assignedRoles]
  simp only
  by_cases hvalid : u.isValid = true
  · rw [if_pos hvalid, if_pos hvalid]
  · rw [if_neg hvalid, if_neg hvalid]
    cases SortedMap.find? user_name m'.m_ldapUserGroups with
    | some groups => rfl
    | none =>
      cases SortedMap.find? user_name m'.m_azureUserGroups with
      | some groups => rfl
      | none => rfl

theorem data_userFlattenRoles (m : AclManager B) (key : Bytes) (rs : List Bytes) :
    (m.userFlattenRoles key rs).2.data = m.data := by
  rw [userFlattenRoles]
  cases SortedMap.find? key m.m_cache.userFlattenRoles with
  | some flat => rfl
  | none => rfl

/-- The roles of a user without the key. -/
def rolesOf (m : AclManager B) (user_name : Bytes) (u : AclUser) : List Bytes :=
  ((m.assignedRoles user_name u).map (·.2)).getD []

/-- Flattening gives the roles of a breadth-first search, and leaves the rules alone. -/
theorem flattenUserRoles_eq (h : Coherent asked m) {user_name : Bytes} {u : AclUser}
    (hu : (B.users.source m.data.users).answer blankUser user_name = .ok u)
    (hsame : ∀ key rs, m.assignedRoles user_name u = some (key, rs) →
      ∀ rs', asked key = some rs' → rs' = rs)
    (hread : B.Readable m.data.roles (m.rolesOf user_name u)) :
    ∃ asked' m', m.flattenUserRoles user_name =
        (.ok (B.flatten m.data.roles (m.rolesOf user_name u)).2, m') ∧
      Coherent asked' m' ∧ m'.rulesSource = m.rulesSource := by
  obtain ⟨hanswer, hcoherent⟩ := user_eq_answer h user_name
  rw [hu] at hanswer
  have huser : m.user user_name = (.ok u, (m.user user_name).2) := Prod.ext hanswer rfl
  rw [flattenUserRoles_of_user huser]
  -- asking for the user changes neither the groups nor the roles
  have hassigned : (m.user user_name).2.assignedRoles user_name u = m.assignedRoles user_name u :=
    rfl
  rw [hassigned]
  cases ha : m.assignedRoles user_name u with
  | none =>
    have hnil : m.rolesOf user_name u = [] := by rw [rolesOf, ha]; rfl
    have hflat : (B.flatten m.data.roles []).2 = [] := by
      rw [AclBackend.flatten, Worklist.search, List.foldl_nil, Worklist.walk_nil]
      rfl
    rw [hnil, hflat]
    exact ⟨asked, _, rfl, hcoherent, rfl⟩
  | some kr =>
    obtain ⟨key, rs⟩ := kr
    have hroles : m.rolesOf user_name u = rs := by rw [rolesOf, ha]; rfl
    rw [hroles] at hread ⊢
    obtain ⟨heq, hcoherent'⟩ :=
      userFlattenRoles_eq_flatten hcoherent key (hsame key rs ha) hread
    refine ⟨_, _, Prod.ext heq rfl, hcoherent', ?_⟩
    rw [rulesSource, data_userFlattenRoles]
    rfl

/-- On every graph of roles the roles of a user are flattened in the order of a
breadth-first search, and the grant is that of the first rule that matches in
the order of these roles; only the node of the client itself is writable always. -/
theorem accessGrantForShvPath_firstMatch (m : AclManager B) (h : Coherent asked m)
    (user_name : Bytes) (u : AclUser) (rules : Bytes → AclRoleAccessRules)
    (hu : (B.users.source m.data.users).answer blankUser user_name = .ok u)
    (hsame : ∀ key rs, m.assignedRoles user_name u = some (key, rs) →
      ∀ rs', asked key = some rs' → rs' = rs)
    (hread : B.Readable m.data.roles (m.rolesOf user_name u))
    (hrules : ∀ name,
      Worklist.Reachable (B.graph m.data.roles) (m.rolesOf user_name u) name →
      (m.rulesSource.answer blankRules name).map (·.1) = .ok (rules name)) :
    ∃ roles, (m.flattenUserRoles user_name).1 = .ok roles ∧
      Worklist.BreadthFirst (B.graph m.data.roles) (m.rolesOf user_name u) roles ∧
      ∀ shv_path method access_grant,
        (m.accessGrantForShvPath user_name shv_path method false access_grant).1 =
          .ok (if shv_path = BROKER_CURRENT_CLIENT_SHV_PATH then ⟨.Write, []⟩
            else grantOfRules (roles.flatMap rules) shv_path method) := by
  obtain ⟨asked', m', heq, hcoherent, hsource⟩ := flattenUserRoles_eq h hu hsame hread
  obtain ⟨-, hbfs⟩ := B.flatten_breadthFirst m.data.roles hread
  refine ⟨_, by rw [heq], hbfs, fun shv_path method access_grant => ?_⟩
  rw [accessGrantForShvPath]
  simp only [Bool.false_eq_true, false_and, if_false, heq]
  by_cases hpath : shv_path = BROKER_CURRENT_CLIENT_SHV_PATH
  · rw [if_pos hpath, if_pos hpath]
  · rw [if_neg hpath, if_neg hpath]
    refine firstMatchingRule_eq hcoherent shv_path method rules _ fun name hname => ?_
    rw [hsource]
    exact hrules name ((hbfs.mem_iff name).mp hname)

/-! ## where a grant comes from -/

/-- A grant of the own rules of a broker. -/
def OwnGrant (ag : AccessGrant) : Prop :=
  ag = .none ∨ ag = ⟨.Write, []⟩ ∨ ∃ access, ag = .fromShv2Access access 0

theorem firstMatchingRule_own {shv_path method : Bytes} {ag : AccessGrant} (roles : List Bytes)
    (m : AclManager B) (h : (firstMatchingRule shv_path method roles m).1 = .ok ag) :
    OwnGrant ag := by
  induction roles generalizing m with
  | nil => exact .inl (Except.ok.inj h).symm
  | cons name roles ih =>
    rw [firstMatchingRule] at h
    cases hr : m.accessRoleRules name with
    | mk r m' =>
      rw [hr] at h
      cases r with
      | error e => contradiction
      | ok rules =>
        simp only at h
        cases hf : rules.find? (·.isPathMethodMatch shv_path method) with
        | some rule =>
          rw [hf] at h
          exact .inr (.inr ⟨rule.access, (Except.ok.inj h).symm⟩)
        | none =>
          rw [hf] at h
          exact ih m' h

/-- A grant is an own one, unless the master broker has resolved it. -/
theorem accessGrantForShvPath_cases {user_name shv_path method : Bytes} {fromMaster : Bool}
    {access_grant ag : AccessGrant} (m : AclManager B)
    (h : (m.accessGrantForShvPath user_name shv_path method fromMaster access_grant).1 = .ok ag) :
    if fromMaster ∧ AccessLevel.None.toInt < access_grant.accessLevel.toInt then ag = access_grant
    else OwnGrant ag := by
  rw [accessGrantForShvPath] at h
  by_cases hmaster : fromMaster ∧ AccessLevel.None.toInt < access_grant.accessLevel.toInt
  · rw [if_pos hmaster] at h ⊢
    exact (Except.ok.inj h).symm
  · rw [if_neg hmaster] at h ⊢
    by_cases happ : fromMaster ∧ shv_path = DIR_BROKER_APP
    · rw [if_pos happ] at h
      exact .inr (.inl (Except.ok.inj h).symm)
    · rw [if_neg happ] at h
      simp only at h
      generalize (if fromMaster = true then m.flattenRole ROLE_MASTER_BROKER
        else m.flattenUserRoles user_name) = r at h
      obtain ⟨r, m'⟩ := r
      cases r with
      | error e => contradiction
      | ok roles =>
        simp only at h
        by_cases hpath : shv_path = BROKER_CURRENT_CLIENT_SHV_PATH
        · rw [if_pos hpath] at h
          exact .inr (.inl (Except.ok.inj h).symm)
        · rw [if_neg hpath] at h
          exact firstMatchingRule_own roles m' h

/-- An own grant of something is kept by the metadata of a message. -/
theorem OwnGrant.kept {ag : AccessGrant} (h : OwnGrant ag)
    (hlevel : AccessLevel.None.toInt < ag.accessLevel.toInt) : ag.Kept := by
  obtain rfl | rfl | ⟨access, rfl⟩ := h
  · exact absurd hlevel (by decide)
  · exact ⟨by decide, .inl rfl⟩
  · exact AccessGrant.kept_of_rule hlevel

def devRule : AclAccessRule := ⟨ascii "dev/**", [], ascii "cmd"⟩

/-- Two roles that contain each other, an undefined one, and a rule of the second. -/
def cyclicRoles : AclManager .configFiles where
  data :=
    { mounts := []
      users := [(ascii "u", ⟨⟨ascii "p", .Plain⟩, [ascii "a"]⟩)]
      roles := [(ascii "a", ⟨[ascii "b", ascii "x"], .invalid⟩), (ascii "b", ⟨[ascii "a"], .invalid⟩)]
      rules := [(ascii "b", [devRule])] }
  m_cache := .empty
  m_azureUserGroups := []
  m_ldapUserGroups := []

theorem accessGrantForShvPath_cyclicRoles :
    ∃ roles, (cyclicRoles.flattenUserRoles (ascii "u")).1 = .ok roles ∧
      Worklist.BreadthFirst (AclBackend.configFiles.graph cyclicRoles.data.roles) [ascii "a"]
        roles ∧
      ∀ shv_path method access_grant,
        (cyclicRoles.accessGrantForShvPath (ascii "u") shv_path method false access_grant).1 =
          .ok (if shv_path = BROKER_CURRENT_CLIENT_SHV_PATH then ⟨.Write, []⟩
            else grantOfRules (roles.flatMap fun name => if name = ascii "b" then [devRule] else [])
              shv_path method) :=
  accessGrantForShvPath_firstMatch cyclicRoles (coherent_empty _ [] []) (ascii "u") _ _ rfl
    (fun _ _ _ _ h => by contradiction) (fun _ _ => ⟨_, rfl⟩) fun name _ => by
      by_cases hb : name = ascii "b"
      · rw [if_pos hb, hb]
        rfl
      · have hmem : name ∉ [ascii "b"] := by simpa using hb
        rw [if_neg hb]
        exact congrArg (Except.map _) (if_neg hmem)

/-- A user without any roles may write to the node of the client. -/
theorem accessGrantForShvPath_currentClient :
    (cyclicRoles.flattenUserRoles (ascii "v")).1 = .ok [] ∧
      (cyclicRoles.accessGrantForShvPath (ascii "v") BROKER_CURRENT_CLIENT_SHV_PATH (ascii "dir")
        false .none).1 = .ok ⟨.Write, []⟩ ∧
      grantOfRules [] BROKER_CURRENT_CLIENT_SHV_PATH (ascii "dir") = .none :=
  ⟨rfl, rfl, rfl⟩

end LibShv.AclManager
